import ManualPages.Proofs.Page.Counting
import ManualPages.Proofs.Page.Visits

/-! # What the text of a block depends on

* `Local`: from two states with the same numbering, and with indexes that have the same of the terms
  that are looked for, a step has the same result.  Every node is set by such a step
  (`Node.isLocal`).
* `body_append`: bodies are set one after the other.
* `block_eq_of_agreeOn`: the text of a block depends on nothing but its index terms that are there
  already, not even on the numbering, since a block does not look at it.  So bodies that share no
  index term do not depend on each other. -/

namespace ManualPages.Page

open Setting
open TermIndex (AgreeOn)

/-- From two states with the same numbering, and with indexes that have the same of the terms of
these nodes, the step has the same result and leaves the same numbering. -/
def Local {α : Type} (nodes : List Node) (step : Setting α) : Prop :=
  ∀ σ τ, σ.numbering = τ.numbering → AgreeOn (keys nodes) σ.index τ.index →
    (step.runFrom σ).1 = (step.runFrom τ).1 ∧
      (step.runFrom σ).2.numbering = (step.runFrom τ).2.numbering

section closure

variable {α β : Type}

theorem Local.pure (nodes : List Node) (a : α) : Local nodes (pure a) :=
  fun _ _ same _ => ⟨rfl, same⟩

theorem Local.throw (nodes : List Node) (e : Fault) : Local nodes (throw e : Setting α) :=
  fun _ _ same _ => ⟨rfl, same⟩

theorem Local.nextNumber : Local [] nextNumber := by
  intro σ τ same _
  rw [runFrom_nextNumber, runFrom_nextNumber, same]
  exact ⟨rfl, rfl⟩

theorem Local.register {n : Node} {term : List Char} (hk : n.key? = some (String.ofList term)) :
    Local [n] (register term) := by
  intro σ τ same agree
  have mem : String.ofList term ∈ keys [n] := List.mem_filterMap.mpr ⟨n, by simp, hk⟩
  rw [runFrom_register, runFrom_register]
  refine ⟨?_, same⟩
  rcases agree.register_cases mem with ⟨hσ, hτ⟩ | ⟨_, _, hσ, hτ⟩
  · rw [hσ, hτ]
  · rw [hσ, hτ]
    rfl

theorem Local.numbered {nodes : List Node} {step : Setting α} (h : Local nodes step) :
    Local nodes (numbered step) := by
  intro σ τ same agree
  have entered : σ.numbering.enter = τ.numbering.enter := by rw [same]
  obtain ⟨result, numbering⟩ := h ⟨σ.numbering.enter, σ.index⟩ ⟨τ.numbering.enter, τ.index⟩
    entered agree
  rw [runFrom_numbered, runFrom_numbered, numbering]
  exact ⟨result, rfl⟩

/-- The first step records the same terms in both states, so the indexes still agree on those of the
second one. -/
theorem Local.bind {a b : List Node} {step : Setting α} {f : α → Setting β} (h : Local a step)
    (follows : Follows a step) (hf : ∀ x, Local b (f x)) : Local (a ++ b) (step >>= f) := by
  intro σ τ same agree
  unfold keys at agree
  rw [List.filterMap_append] at agree
  obtain ⟨result, numbering⟩ := h σ τ same (agree.mono (List.subset_append_left _ _))
  have later : AgreeOn (keys b) (step.runFrom σ).2.index (step.runFrom τ).2.index := by
    have before := agree.mono (List.subset_append_right _ (b.filterMap Node.key?))
    rw [(follows σ).2, (follows τ).2]
    exact before.registerAll _
  rw [runFrom_bind, runFrom_bind]
  rcases hσ : step.runFrom σ with ⟨r, σ'⟩
  rcases hτ : step.runFrom τ with ⟨r', τ'⟩
  rw [hσ, hτ] at result numbering later
  dsimp only at result numbering later
  subst result
  cases r with
  | error e => exact ⟨rfl, numbering⟩
  | ok x => exact hf x σ' τ' numbering later

theorem Local.map {nodes : List Node} {step : Setting α} (h : Local nodes step)
    (follows : Follows nodes step) (f : α → β) : Local nodes (f <$> step) := by
  rw [map_eq_pure_bind, ← List.append_nil nodes]
  exact h.bind follows fun x => .pure [] (f x)

end closure

/-! ### Nodes -/

theorem local_setAll {nodes : List Node} (h : ∀ n ∈ nodes, Local n.visits n.set) :
    Local (nodes.flatMap Node.visits) (setAll nodes) := by
  induction nodes with
  | nil => exact .pure [] []
  | cons n rest ih =>
      have first := h n (by simp)
      have others := ih fun m hm => h m (List.mem_cons_of_mem n hm)
      have follows := follows_setAll fun m (_ : m ∈ rest) => m.follows
      rw [setAll, List.flatMap_cons]
      exact first.bind n.follows fun t => others.map follows (t :: ·)

theorem local_heading (n : Node) : Local n.opening n.heading := by
  cases n with
  | numberedEntry i => exact Local.nextNumber.map .nextNumber _
  | method m =>
      have shown : Local [.method m] (signature m.descriptor) := by
        unfold signature
        split
        · exact .pure _ _
        · exact .throw _ _
      exact shown.map (follows_signature m) _
  | _ => exact .pure _ _

theorem local_finish (n : Node) (heading : List Char) (texts : List (List Char)) :
    Local n.closing (n.finish heading texts) := by
  unfold Node.finish
  split
  · next role content =>
      cases role
      case index => exact (Local.register rfl).bind (.register rfl rfl) fun new => .pure _ _
      all_goals exact .pure _ _
  · next target content =>
      rcases target with url | ⟨name, _ | file⟩ | _
      case unsupported => exact .throw _ _
      all_goals exact .pure _ _
  · exact .pure _ _

theorem Node.isLocal (n : Node) : Local n.visits n.set := by
  induction n using Node.induction with
  | step n ih =>
      have follows := follows_setAll fun m (_ : m ∈ n.parts) => m.follows
      have parts := (local_heading n).bind (follows_heading n) fun heading =>
        (local_setAll ih).bind follows fun texts => local_finish n heading texts
      rw [← List.append_assoc, ← Node.visits_eq] at parts
      rw [Node.set_eq]
      unfold Node.within
      split
      · exact parts.numbered
      · exact parts

/-! ### Bodies -/

/-- Bodies are set one after the other. -/
theorem body_append (a b : List Block) : body (a ++ b) = (do
    let s ← body a
    let t ← body b
    pure (s ++ t)) := by
  unfold body
  simp only [blocks_eq, List.map_append, setAll_append, bind_assoc, pure_bind, List.flatten_append]

theorem unnumbered_body (content : List Block) : Unnumbered (body content) :=
  (unnumbered_blocks .document content).bind fun _ => .pure _

/-- A body in which no term is met that the one before it has recorded. -/
theorem runFrom_body_append {a b : List Block} (σ : State)
    (disjoint : ∀ k ∈ keys (Node.body a).visits, k ∉ keys (Node.body b).visits) :
    ((body (a ++ b)).runFrom σ).1 = (do
      let s ← ((body a).runFrom σ).1
      let t ← ((body b).runFrom σ).1
      pure (s ++ t)) := by
  have numbering := (unnumbered_body a).numbering_eq σ
  have index : ((body a).runFrom σ).2.index =
      σ.index.registerAll (keysDone (Node.body a).visits) := ((Node.body a).follows σ).2
  have agree : AgreeOn (keys (Node.body b).visits) ((body a).runFrom σ).2.index σ.index := by
    intro k hk
    rw [index, TermIndex.mem_registerAll]
    constructor
    · rintro (h | h)
      · exact h
      · exact absurd hk (disjoint k (keysDone_subset _ h))
    · exact .inl
  have same := ((Node.body b).isLocal ((body a).runFrom σ).2 σ numbering agree).1
  change ((body b).runFrom ((body a).runFrom σ).2).1 = ((body b).runFrom σ).1 at same
  rw [body_append, runFrom_bind, ← same]
  rcases (body a).runFrom σ with ⟨e | s, σ'⟩
  · rfl
  · dsimp only
    rw [runFrom_bind]
    rcases (body b).runFrom σ' with ⟨e | t, τ⟩
    · rfl
    · rfl

/-- **What a block depends on.**  From two states whose indexes have the same of the terms of a
block, whatever else they have and whatever the numbering, setting the block has the same result, a
text or a fault, and appends the same terms to the indexes.  The bodies of documents without a
common term are set as if each stood alone. -/
theorem block_eq_of_agreeOn :
    (∀ (context : Context) (b : Block) (σ τ : State),
      AgreeOn (keys (Node.block context b).visits) σ.index τ.index →
        ((block context b).runFrom σ).1 = ((block context b).runFrom τ).1 ∧
        ∃ new, ((block context b).runFrom σ).2.index.terms = σ.index.terms ++ new ∧
          ((block context b).runFrom τ).2.index.terms = τ.index.terms ++ new) ∧
    ∀ (a b : List Block) (σ : State),
      (∀ k ∈ keys (Node.body a).visits, k ∉ keys (Node.body b).visits) →
        ((body (a ++ b)).runFrom σ).1 = (do
          let s ← ((body a).runFrom σ).1
          let t ← ((body b).runFrom σ).1
          pure (s ++ t)) := by
  refine ⟨fun context b σ τ agree => ⟨?_, ?_⟩, fun a b σ disjoint => runFrom_body_append σ disjoint⟩
  · -- the numbering of the one state does not matter to the other
    have renumbered := unnumbered_block context b τ σ.numbering
    have same := ((Node.block context b).isLocal σ ⟨σ.numbering, τ.index⟩ rfl agree).1
    change ((block context b).runFrom σ).1 = ((block context b).runFrom _).1 at same
    rw [same, renumbered]
  · have recorded : AgreeOn (keysDone (Node.block context b).visits) σ.index τ.index :=
      agree.mono (keysDone_subset _)
    have hσ : ((block context b).runFrom σ).2.index = _ := ((Node.block context b).follows σ).2
    have hτ : ((block context b).runFrom τ).2.index = _ := ((Node.block context b).follows τ).2
    rw [hσ, hτ]
    exact recorded.exists_append

/-- An index entry in a numbered list, set at the start and below an item with the number five: only
its own term counts. -/
theorem block_eq_of_other_term :
    AgreeOn (keys (Node.block .method
      (.numberedList [⟨[.paragraph [.span .index [.text "b"]]]⟩])).visits) .empty
        (TermIndex.empty.register "a").2 ∧
    ((block .method (.numberedList [⟨[.paragraph [.span .index [.text "b"]]]⟩])).runFrom
      .initial).1 =
    ((block .method (.numberedList [⟨[.paragraph [.span .index [.text "b"]]]⟩])).runFrom
      ⟨⟨[5]⟩, (TermIndex.empty.register "a").2⟩).1 ∧
    (∀ k ∈ keys (Node.body [.paragraph [.span .index [.text "a"]]]).visits,
      k ∉ keys (Node.body [.paragraph [.span .index [.text "b"]]]).visits) ∧
    ((body ([.paragraph [.span .index [.text "a"]]] ++
      [.paragraph [.span .index [.text "b"]]])).runFrom .initial).1 =
        .ok ".PP\n\\&\\fBa\\fP.PP\n\\&\\fBb\\fP".toList := by
  have terms : keys (Node.block .method
      (.numberedList [⟨[.paragraph [.span .index [.text "b"]]]⟩])).visits = ["b"] := by
    simp [Node.visits_eq, Node.opening, Node.closing, Node.parts]
    rfl
  have paragraph : ∀ s, keys (Node.body [.paragraph [.span .index [.text s]]]).visits =
      [String.ofList (indexTerm [.text s])] := by
    intro s
    simp [Node.visits_eq, Node.opening, Node.closing, Node.parts]
    rfl
  have agree : AgreeOn (keys (Node.block .method
      (.numberedList [⟨[.paragraph [.span .index [.text "b"]]]⟩])).visits) .empty
        (TermIndex.empty.register "a").2 := by
    rw [terms]
    intro t ht
    rw [List.mem_singleton.mp ht]
    decide
  have disjoint : ∀ k ∈ keys (Node.body [.paragraph [.span .index [.text "a"]]]).visits,
      k ∉ keys (Node.body [.paragraph [.span .index [.text "b"]]]).visits := by
    rw [paragraph, paragraph]
    decide
  refine ⟨agree, ?_, disjoint, ?_⟩
  · exact (block_eq_of_agreeOn.1 .method _ .initial ⟨⟨[5]⟩, (TermIndex.empty.register "a").2⟩
      agree).1
  · exact block_eq_of_agreeOn.2 _ _ .initial disjoint

end ManualPages.Page
