import ManualPages.Proofs.Page.Node

/-! # Numbers in lists

* `Unnumbered`: a step that neither looks at the numbering nor changes it, also when it fails.  Every
  block is set by such a step (`unnumbered_block`).
* `numberedFrom`: the items of a numbered list with their numbers, without a counter.  It is what
  setting the list comes to (`block_numberedList`).
* `numbered_from_one`: so the items of a list are numbered from one on, whatever they hold.

The two depend on each other: a list can count because what stands in its items leaves its counter
alone, and it leaves the counters around it alone because it counts on one of its own. -/

namespace ManualPages.Page

namespace Setting

/-- The step neither looks at the numbering nor changes it, also when it fails. -/
def Unnumbered (step : Setting α) : Prop :=
  ∀ σ ν, step.runFrom ⟨ν, σ.index⟩ = ((step.runFrom σ).1, ⟨ν, (step.runFrom σ).2.index⟩)

section closure

variable {α β : Type}

theorem Unnumbered.pure (a : α) : Unnumbered (pure a) := fun _ _ => rfl

theorem Unnumbered.throw (e : Fault) : Unnumbered (throw e : Setting α) := fun _ _ => rfl

theorem Unnumbered.register (term : List Char) : Unnumbered (register term) := fun _ _ => rfl

theorem Unnumbered.bind {step : Setting α} {f : α → Setting β} (h : Unnumbered step)
    (hf : ∀ a, Unnumbered (f a)) : Unnumbered (step >>= f) := by
  intro σ ν
  rw [runFrom_bind, runFrom_bind, h σ ν]
  rcases step.runFrom σ with ⟨e | a, τ⟩
  · rfl
  · exact hf a τ ν

theorem Unnumbered.map {step : Setting α} (h : Unnumbered step) (f : α → β) :
    Unnumbered (f <$> step) := by
  rw [map_eq_pure_bind]
  exact h.bind fun a => .pure (f a)

theorem Unnumbered.numbering_eq {step : Setting α} (h : Unnumbered step) (σ : State) :
    (step.runFrom σ).2.numbering = σ.numbering := by
  have e := h σ σ.numbering
  change step.runFrom σ = _ at e
  rw [e]

end closure

end Setting

open Setting

/-! ### Nodes that follow one another -/

theorem unnumbered_setAll {nodes : List Node} (h : ∀ n ∈ nodes, Unnumbered n.set) :
    Unnumbered (setAll nodes) := by
  induction nodes with
  | nil => exact .pure []
  | cons n rest ih =>
      rw [setAll]
      have hrest := ih fun m hm => h m (List.mem_cons_of_mem n hm)
      exact (h n (by simp)).bind fun t => hrest.map (t :: ·)

/-! ### Numbered lists -/

/-- The items of a numbered list that are numbered from `k` on, without a counter. -/
def numberedFrom : ℕ → List Item → Setting (List (List Char))
  | _, [] => Pure.pure []
  | k, i :: rest => do
    let pieces ← blocks .numberedItem i.blocks
    let others ← numberedFrom (k + 1) rest
    Pure.pure (numberedItem k pieces :: others)

theorem unnumbered_numberedFrom {items : List Item}
    (h : ∀ i ∈ items, Unnumbered (blocks .numberedItem i.blocks)) (k : ℕ) :
    Unnumbered (numberedFrom k items) := by
  induction items generalizing k with
  | nil => exact .pure []
  | cons i rest ih =>
      have hrest := ih fun j hj => h j (List.mem_cons_of_mem i hj)
      rw [numberedFrom]
      exact (h i (by simp)).bind fun pieces => (hrest (k + 1)).map (numberedItem k pieces :: ·)

/-- With a counter at `k` the items are numbered from `k + 1` on; the counters below stay. -/
theorem runFrom_numberedItems {items : List Item}
    (h : ∀ i ∈ items, Unnumbered (blocks .numberedItem i.blocks)) (σ : State) (k : ℕ)
    (outer : List ℕ) : ∃ k', (numberedItems items).runFrom ⟨⟨k :: outer⟩, σ.index⟩ =
      (((List.flatten <$> numberedFrom (k + 1) items).runFrom σ).1,
        ⟨⟨k' :: outer⟩, ((List.flatten <$> numberedFrom (k + 1) items).runFrom σ).2.index⟩) := by
  induction items generalizing σ k with
  | nil => exact ⟨k, rfl⟩
  | cons i rest ih =>
      obtain ⟨content⟩ := i
      have hi := h ⟨content⟩ (by simp)
      simp only [numberedItems, numberedEntry, numberedFrom, map_eq_pure_bind, bind_assoc,
        pure_bind]
      rw [runFrom_bind, runFrom_nextNumber]
      dsimp only [Numbering.next]
      rw [runFrom_bind, runFrom_bind, hi σ]
      rcases (blocks .numberedItem content).runFrom σ with ⟨e | pieces, τ⟩
      · exact ⟨k + 1, rfl⟩
      · obtain ⟨k', hk⟩ := ih (fun j hj => h j (List.mem_cons_of_mem _ hj)) τ (k + 1)
        refine ⟨k', ?_⟩
        dsimp only
        rw [runFrom_bind, hk, runFrom_bind, map_eq_pure_bind, runFrom_bind]
        rcases (numberedFrom (k + 1 + 1) rest).runFrom τ with ⟨e | others, τ'⟩
        · rfl
        · rfl

/-- A counter of its own numbers the items of a list from one on, and leaves no trace. -/
theorem numbered_numberedItems {items : List Item}
    (h : ∀ i ∈ items, Unnumbered (blocks .numberedItem i.blocks)) :
    numbered (numberedItems items) = List.flatten <$> numberedFrom 1 items := by
  apply Setting.ext
  intro σ
  have counterless := (unnumbered_numberedFrom h 1).map List.flatten
  have kept := counterless.numbering_eq σ
  obtain ⟨k, hk⟩ := runFrom_numberedItems h σ 0 σ.numbering.counters
  rw [runFrom_numbered]
  change (((numberedItems items).runFrom ⟨⟨0 :: σ.numbering.counters⟩, σ.index⟩).1, _) = _
  dsimp only [Numbering.enter]
  rw [hk]
  dsimp only [Numbering.leave, List.tail_cons]
  rw [← kept]

/-! ### Nodes -/

/-- Setting the node does not look at the numbering; of an item of a numbered list this is said of
its blocks. -/
def Node.KeepsNumbers : Node → Prop
  | .numberedEntry i => Unnumbered (blocks .numberedItem i.blocks)
  | n => Unnumbered n.set

theorem unnumbered_heading {n : Node} (h : ∀ i, n ≠ .numberedEntry i) : Unnumbered n.heading := by
  cases n with
  | numberedEntry i => exact absurd rfl (h i)
  | method m =>
      unfold Node.heading signature
      refine Unnumbered.bind ?_ fun shown => .pure _
      split
      · exact .pure _
      · exact .throw _
  | _ => exact .pure []

theorem unnumbered_finish (n : Node) (heading : List Char) (texts : List (List Char)) :
    Unnumbered (n.finish heading texts) := by
  unfold Node.finish
  split
  · next role content =>
      cases role
      case index => exact (Unnumbered.register _).bind fun new => .pure _
      all_goals exact .pure _
  · next target content =>
      rcases target with url | ⟨name, _ | file⟩ | _
      case unsupported => exact .throw _
      all_goals exact .pure _
  · exact .pure _

theorem Node.ne_numberedEntry_of_mem_parts {n p : Node}
    (hn : ∀ context items, n ≠ .block context (.numberedList items)) (h : p ∈ n.parts) (i : Item) :
    p ≠ .numberedEntry i := by
  rintro rfl
  rcases n with node | content | ⟨context, b⟩ | j | j | d | m | content
  case inline =>
    rcases node with _ | _ | ⟨role, _⟩ | _
    case span => cases role <;> simp [Node.parts] at h
    all_goals simp [Node.parts] at h
  case block =>
    cases b
    case numberedList items => exact hn context items rfl
    all_goals simp [Node.parts] at h
  all_goals simp [Node.parts] at h

theorem Node.KeepsNumbers.unnumbered {n : Node} (h : n.KeepsNumbers)
    (hn : ∀ i, n ≠ .numberedEntry i) : Unnumbered n.set := by
  cases n with
  | numberedEntry i => exact absurd rfl (hn i)
  | _ => exact h

theorem unnumbered_of_parts {n : Node} (hn : ∀ i, n ≠ .numberedEntry i)
    (hl : ∀ context items, n ≠ .block context (.numberedList items))
    (h : ∀ p ∈ n.parts, p.KeepsNumbers) : Unnumbered n.set := by
  have parts : Unnumbered (setAll n.parts) := unnumbered_setAll fun p hp =>
    (h p hp).unnumbered (Node.ne_numberedEntry_of_mem_parts hl hp)
  have steps := (unnumbered_heading hn).bind fun heading =>
    parts.bind fun texts => unnumbered_finish n heading texts
  rw [Node.set_eq]
  unfold Node.within
  split
  · next context items => exact absurd rfl (hl context items)
  · exact steps

theorem Node.keepsNumbers (n : Node) : n.KeepsNumbers := by
  induction n using Node.induction with
  | step n ih =>
      by_cases hl : ∃ context items, n = .block context (.numberedList items)
      · obtain ⟨context, items, rfl⟩ := hl
        have each : ∀ i ∈ items, Unnumbered (blocks .numberedItem i.blocks) :=
          fun i hi => ih (.numberedEntry i) (List.mem_map_of_mem hi)
        change Unnumbered (Page.block context (.numberedList items))
        rw [Page.block, numbered_numberedItems each]
        exact (unnumbered_numberedFrom each 1).map List.flatten
      · cases n with
        | numberedEntry i =>
            change Unnumbered (blocks .numberedItem i.blocks)
            rw [blocks_eq]
            refine unnumbered_setAll fun p hp => ?_
            obtain ⟨b, -, rfl⟩ := List.mem_map.mp hp
            exact ih _ hp
        | _ => exact unnumbered_of_parts (by simp) (fun c items e => hl ⟨c, items, e⟩) ih

/-- A block is set without looking at the numbering of the lists around it. -/
theorem unnumbered_block (context : Context) (b : Block) : Unnumbered (block context b) :=
  (Node.keepsNumbers (.block context b)).unnumbered (by simp)

theorem unnumbered_blocks (context : Context) (content : List Block) :
    Unnumbered (blocks context content) := by
  rw [blocks_eq]
  refine unnumbered_setAll fun p hp => ?_
  obtain ⟨b, -, rfl⟩ := List.mem_map.mp hp
  exact unnumbered_block context b

/-- A numbered list is set as its items are with their numbers, without a counter. -/
theorem block_numberedList (context : Context) (items : List Item) :
    block context (.numberedList items) = List.flatten <$> numberedFrom 1 items := by
  rw [block, numbered_numberedItems fun i _ => unnumbered_blocks .numberedItem i.blocks]

/-- There is a text for each item, and it begins with the number of the item. -/
theorem exists_of_yields_numberedFrom {items : List Item} {k : ℕ} {σ τ : State}
    {texts : List (List Char)} (h : (numberedFrom k items).Yields σ texts τ) :
    texts.length = items.length ∧ ∀ j i, items[j]? = some i → ∃ pieces σ' τ',
      (blocks .numberedItem i.blocks).Yields σ' pieces τ' ∧
        texts[j]? = some (numberedItem (k + j) pieces) := by
  induction items generalizing k σ texts with
  | nil =>
      rw [numberedFrom, yields_pure] at h
      obtain ⟨rfl, rfl⟩ := h
      simp
  | cons i rest ih =>
      simp only [numberedFrom, yields_bind, yields_pure] at h
      obtain ⟨pieces, σ', hp, others, τ', ho, rfl, rfl⟩ := h
      obtain ⟨hl, each⟩ := ih ho
      refine ⟨by simp [hl], fun j x hj => ?_⟩
      cases j with
      | zero =>
          cases hj
          exact ⟨pieces, σ, σ', hp, rfl⟩
      | succ j =>
          obtain ⟨pieces', σ₁, τ₁, h₁, h₂⟩ := each j x hj
          refine ⟨pieces', σ₁, τ₁, h₁, ?_⟩
          rw [List.getElem?_cons_succ, h₂, Nat.add_right_comm, Nat.add_assoc]

/-- **Numbers.**  What is set for a numbered list consists of one text for each item, which begins
with the number of the item, from one on, and goes on with the blocks of the item.  No block changes
the numbering of the lists around it, whether it is set or fails. -/
theorem numbered_from_one :
    (∀ (context : Context) (items : List Item) (σ τ : State) (s : List Char),
      (block context (.numberedList items)).Yields σ s τ → ∃ texts : List (List Char),
        s = texts.flatten ∧ texts.length = items.length ∧
        ∀ j i, items[j]? = some i → ∃ pieces σ' τ',
          (blocks .numberedItem i.blocks).Yields σ' pieces τ' ∧ texts[j]? =
            some (".TP\n".toList ++ (toString (j + 1)).toList ++ ".\n".toList ++
              Text.join ['\n'] pieces)) ∧
    ∀ (context : Context) (b : Block) (σ : State),
      ((block context b).runFrom σ).2.numbering = σ.numbering := by
  constructor
  · intro context items σ τ s h
    rw [block_numberedList, yields_map] at h
    obtain ⟨texts, ht, rfl⟩ := h
    obtain ⟨hl, each⟩ := exists_of_yields_numberedFrom ht
    refine ⟨texts, rfl, hl, fun j i hj => ?_⟩
    obtain ⟨pieces, σ', τ', hp, e⟩ := each j i hj
    rw [Nat.add_comm 1 j] at e
    exact ⟨pieces, σ', τ', hp, e⟩
  · intro context b σ
    exact (unnumbered_block context b).numbering_eq σ

/-- Two items within the first of two items, all of them below an item with the number five. -/
theorem numbered_from_one_nested :
    (block .numberedItem (.numberedList [⟨[.numberedList [⟨[]⟩, ⟨[]⟩]]⟩, ⟨[]⟩])).Yields ⟨⟨[5]⟩, .empty⟩
      ".TP\n1.\n.TP\n1.\n.TP\n2.\n.TP\n2.\n".toList ⟨⟨[5]⟩, .empty⟩ ∧
    ∃ texts : List (List Char), ".TP\n1.\n.TP\n1.\n.TP\n2.\n.TP\n2.\n".toList = texts.flatten ∧
      texts.length = 2 ∧ ∃ pieces, texts[1]? = some (".TP\n".toList ++ (toString 2).toList ++
        ".\n".toList ++ Text.join ['\n'] pieces) := by
  have run : (block .numberedItem (.numberedList
      [⟨[.numberedList [⟨[]⟩, ⟨[]⟩]]⟩, ⟨[]⟩])).Yields ⟨⟨[5]⟩, .empty⟩
      ".TP\n1.\n.TP\n1.\n.TP\n2.\n.TP\n2.\n".toList ⟨⟨[5]⟩, .empty⟩ := rfl
  obtain ⟨texts, e, hl, each⟩ := numbered_from_one.1 _ _ _ _ _ run
  obtain ⟨pieces, -, -, -, second⟩ := each 1 ⟨[]⟩ rfl
  exact ⟨run, texts, e, hl, pieces, second⟩

end ManualPages.Page
