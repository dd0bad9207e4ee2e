import ManualPages.Proofs.Page.Node
import Mathlib.Data.List.Forall2

/-! # The traversal of a tree

What can be said of a tree that is set, and of the text that is made of it.

* `Node.composed_of_yields` says all that setting a node can do: its parts are set one after the
  other, and `Composed` lists, for every kind of node, what their texts make.
* `Reaches σ n τ m`: setting `n` from `σ` comes to `m`, in state `τ`.
* `Node.yields_induction`: what every kind of node gets from its parts holds of every text that is
  set.  The facts about a whole page rest on it. -/

namespace ManualPages.Page

/-! ### What a node makes of its parts -/

/-- `Composed σ n τ texts s τ'`: node `n`, begun in `σ`, makes the text `s` of the texts of its
parts, which have led to the state `τ`, and leaves the state `τ'`. -/
inductive Composed (σ : State) : Node → State → List (List Char) → List Char → State → Prop
  | text {x : String} {τ : State} :
      Composed σ (.inline (.text x)) τ [] (Roff.escape x.toList) τ
  | verb {x : String} {τ : State} :
      Composed σ (.inline (.verb x)) τ [] (Roff.escape x.toList) τ
  | emphasis {content : List Inline} {τ : State} {t : List Char} :
      Composed σ (.inline (.span .emphasis content)) τ [t] (Roff.italic t) τ
  | code {content : List Inline} {τ : State} {t : List Char} :
      Composed σ (.inline (.span .code content)) τ [t] (Roff.bold t) τ
  | var {content : List Inline} {τ : State} {t : List Char} :
      Composed σ (.inline (.span .var content)) τ [t] t τ
  | keyboard {content : List Inline} {τ : State} {t : List Char} :
      Composed σ (.inline (.span .keyboard content)) τ [t] t τ
  | newEntry {content : List Inline} {τ : State} {t : List Char}
      (new : String.ofList (indexTerm content) ∉ τ.index.terms) :
      Composed σ (.inline (.span .index content)) τ [t] (Roff.bold t)
        { τ with index := τ.index.add (String.ofList (indexTerm content)) new }
  | oldEntry {content : List Inline} {τ : State} {t : List Char}
      (old : String.ofList (indexTerm content) ∈ τ.index.terms) :
      Composed σ (.inline (.span .index content)) τ [t] [] τ
  | footnote {content : List Inline} {τ : State} :
      Composed σ (.inline (.span .footnote content)) τ [] [] τ
  | url {url : String} {content : List Inline} {τ : State} {t : List Char} :
      Composed σ (.inline (.reference (.url url) content)) τ [t] t τ
  | otherFile {name file : String} {content : List Inline} {τ : State} {t : List Char} :
      Composed σ (.inline (.reference (.label name (some file)) content)) τ [t] t τ
  | sameFile {name : String} {content : List Inline} {τ : State} {t : List Char} :
      Composed σ (.inline (.reference (.label name none) content)) τ [t]
        ((Text.stripFront functionMark t).getD t) τ
  | running {content : List Inline} {τ : State} {texts : List (List Char)} :
      Composed σ (.running content) τ texts texts.flatten τ
  | headline {context : Context} {level : Int64} {title : List Inline} {τ : State}
      {t : List Char} :
      Composed σ (.block context (.headline level title)) τ [t] (Page.headline level t) τ
  | paragraph {context : Context} {content : List Inline} {τ : State} {t : List Char} :
      Composed σ (.block context (.paragraph content)) τ [t] (Page.paragraph context t) τ
  | verbatim {context : Context} {lines : List String} {τ : State} :
      Composed σ (.block context (.verbatim lines)) τ [] (Page.verbatim lines) τ
  | bulletList {context : Context} {items : List Item} {τ : State}
      {texts : List (List Char)} :
      Composed σ (.block context (.bulletList items)) τ texts
        (bulleted (texts.map Roff.closeFirstGap)) τ
  | numberedList {context : Context} {items : List Item} {τ : State}
      {texts : List (List Char)} :
      Composed σ (.block context (.numberedList items)) τ texts texts.flatten
        { τ with numbering := τ.numbering.leave }
  | descriptionList {context : Context} {items : List Description} {τ : State}
      {texts : List (List Char)} :
      Composed σ (.block context (.descriptionList items)) τ texts
        (texts.flatMap Roff.endLine) τ
  | methodList {context : Context} {items : List Method} {τ : State}
      {texts : List (List Char)} :
      Composed σ (.block context (.methodList items)) τ texts (texts.flatMap Roff.endLine) τ
  | bulletItem {i : Item} {τ : State} {texts : List (List Char)} :
      Composed σ (.bulletItem i) τ texts (texts.flatMap Roff.endLine) τ
  | numberedEntry {i : Item} {τ : State} {texts : List (List Char)} :
      Composed σ (.numberedEntry i) τ texts (numberedItem σ.numbering.next.1 texts) τ
  | description {d : Description} {τ : State} {t : List Char} {texts : List (List Char)} :
      Composed σ (.description d) τ (t :: texts) (descriptionItem t texts) τ
  | method {m : Method} {τ : State} {shown : List Char} {texts : List (List Char)}
      (signature : (Signature.parse m.descriptor.toList).show? = some shown) :
      Composed σ (.method m) τ texts (termItem (Roff.escape shown) texts) τ
  | body {content : List Block} {τ : State} {texts : List (List Char)} :
      Composed σ (.body content) τ texts texts.flatten τ

section composition

open Setting

variable {σ τ : State} {s : List Char}

theorem yields_setAll_nil {texts : List (List Char)} :
    (setAll []).Yields σ texts τ ↔ texts = [] ∧ τ = σ := yields_pure

theorem yields_setAll_cons {n : Node} {rest : List Node} {texts : List (List Char)} :
    (setAll (n :: rest)).Yields σ texts τ ↔ ∃ t ts σ', n.set.Yields σ t σ' ∧
      (setAll rest).Yields σ' ts τ ∧ texts = t :: ts := by
  simp only [setAll, yields_bind, yields_pure]
  constructor
  · rintro ⟨t, σ', h, ts, τ', h', rfl, rfl⟩
    exact ⟨t, ts, σ', h, h', rfl⟩
  · rintro ⟨t, ts, σ', h, h', rfl⟩
    exact ⟨t, σ', h, ts, τ, h', rfl, rfl⟩

theorem yields_setAll_singleton {n : Node} {texts : List (List Char)} :
    (setAll [n]).Yields σ texts τ ↔ ∃ t, n.set.Yields σ t τ ∧ texts = [t] := by
  simp only [yields_setAll_cons, yields_setAll_nil]
  constructor
  · rintro ⟨t, _, σ', h, ⟨rfl, rfl⟩, rfl⟩
    exact ⟨t, h, rfl⟩
  · rintro ⟨t, h, rfl⟩
    exact ⟨t, [], τ, h, ⟨rfl, rfl⟩, rfl⟩

theorem yields_setAll_running {content : List Inline} {t : List Char} :
    (setAll [.running content]).Yields σ [t] τ ↔ (inlines content).Yields σ t τ := by
  rw [yields_setAll_singleton]
  constructor
  · rintro ⟨_, h, e⟩
    cases e
    exact h
  · exact fun h => ⟨t, h, rfl⟩

/-- What an inline node makes of its content. -/
theorem composed_of_yields_inline {node : Inline} (h : (inline node).Yields σ s τ) :
    ∃ texts σ', (setAll (Node.parts (.inline node))).Yields σ texts σ' ∧
      Composed σ (.inline node) σ' texts s τ := by
  rw [Node.inline_eq, yields_bind] at h
  obtain ⟨texts, σ', ht, h⟩ := h
  refine ⟨texts, σ', ht, ?_⟩
  rcases node with x | x | ⟨role, content⟩ | ⟨target, content⟩
  case text | verb =>
    obtain ⟨rfl, rfl⟩ := yields_setAll_nil.mp ht
    obtain ⟨rfl, rfl⟩ := yields_pure.mp h
    constructor
  case span =>
    cases role
    case footnote =>
      obtain ⟨rfl, rfl⟩ := yields_setAll_nil.mp ht
      obtain ⟨rfl, rfl⟩ := yields_pure.mp h
      constructor
    all_goals
      obtain ⟨t, -, rfl⟩ := yields_setAll_singleton.mp ht
      rw [Node.finish, List.flatten_singleton] at h
    case index =>
      simp only [span, yields_bind, yields_register, yields_pure] at h
      obtain ⟨new, _, ⟨rfl, rfl⟩, rfl, rfl⟩ := h
      by_cases hm : String.ofList (indexTerm content) ∈ σ'.index.terms
      · rw [TermIndex.register_of_mem hm]
        exact .oldEntry hm
      · rw [TermIndex.register_of_not_mem hm]
        exact .newEntry hm
    all_goals
      obtain ⟨rfl, rfl⟩ := yields_pure.mp h
      constructor
  case reference =>
    obtain ⟨t, -, rfl⟩ := yields_setAll_singleton.mp ht
    rw [Node.finish, List.flatten_singleton] at h
    rcases target with url | ⟨name, _ | file⟩ | _
    case unsupported => exact absurd h yields_throw
    all_goals
      obtain ⟨rfl, rfl⟩ := yields_pure.mp h
      constructor

/-- What a block makes of its parts. -/
theorem composed_of_yields_block {context : Context} {b : Block}
    (h : (block context b).Yields σ s τ) :
    ∃ texts σ', (setAll (Node.parts (.block context b))).Yields (Node.enter (.block context b) σ)
      texts σ' ∧ Composed σ (.block context b) σ' texts s τ := by
  rw [Node.block_eq] at h
  cases b with
  | numberedList items =>
      simp only [Node.within, yields_numbered, yields_bind, yields_pure] at h
      obtain ⟨σ', ⟨texts, _, ht, rfl, rfl⟩, rfl⟩ := h
      exact ⟨texts, _, ht, .numberedList⟩
  | headline level title =>
      simp only [Node.within, yields_bind, yields_pure] at h
      obtain ⟨texts, _, ht, rfl, rfl⟩ := h
      obtain ⟨t, -, rfl⟩ := yields_setAll_singleton.mp ht
      rw [Node.compose, List.flatten_singleton]
      exact ⟨[t], τ, ht, .headline⟩
  | paragraph content =>
      simp only [Node.within, yields_bind, yields_pure] at h
      obtain ⟨texts, _, ht, rfl, rfl⟩ := h
      obtain ⟨t, -, rfl⟩ := yields_setAll_singleton.mp ht
      rw [Node.compose, List.flatten_singleton]
      exact ⟨[t], τ, ht, .paragraph⟩
  | verbatim lines =>
      simp only [Node.within, yields_bind, yields_pure] at h
      obtain ⟨texts, _, ht, rfl, rfl⟩ := h
      obtain ⟨rfl, -⟩ := yields_setAll_nil.mp ht
      exact ⟨[], τ, ht, .verbatim⟩
  | _ =>
      simp only [Node.within, yields_bind, yields_pure] at h
      obtain ⟨texts, _, ht, rfl, rfl⟩ := h
      refine ⟨texts, τ, ht, ?_⟩
      constructor

theorem yields_signature {descriptor : String} :
    (signature descriptor).Yields σ s τ ↔
      (Signature.parse descriptor.toList).show? = some s ∧ τ = σ := by
  unfold signature
  cases (Signature.parse descriptor.toList).show? with
  | none => simp [yields_throw]
  | some shown => simp [yields_pure, eq_comm]

/-- **What a node does.**  Its parts are set one after the other, and their texts are composed. -/
theorem Node.composed_of_yields {n : Node} (h : n.set.Yields σ s τ) :
    ∃ texts σ', (setAll n.parts).Yields (n.enter σ) texts σ' ∧ Composed σ n σ' texts s τ := by
  rcases n with node | content | ⟨context, b⟩ | i | i | d | m | content
  case inline => exact composed_of_yields_inline h
  case block => exact composed_of_yields_block h
  case numberedEntry =>
    simp only [set_eq, within, heading, bind_assoc, pure_bind, yields_bind, yields_nextNumber] at h
    obtain ⟨_, _, ⟨rfl, rfl⟩, texts, _, ht, h⟩ := h
    obtain ⟨rfl, rfl⟩ := yields_pure.mp h
    exact ⟨texts, _, ht, .numberedEntry⟩
  case method =>
    simp only [set_eq, within, heading, bind_assoc, pure_bind, yields_bind, yields_signature] at h
    obtain ⟨shown, _, ⟨hs, rfl⟩, texts, _, ht, h⟩ := h
    obtain ⟨rfl, rfl⟩ := yields_pure.mp h
    exact ⟨texts, _, ht, .method hs⟩
  case description =>
    simp only [set_eq, within, heading, pure_bind, yields_bind] at h
    obtain ⟨texts, _, ht, h⟩ := h
    obtain ⟨t, ts, σ', -, -, rfl⟩ := yields_setAll_cons.mp ht
    obtain ⟨rfl, rfl⟩ := yields_pure.mp h
    exact ⟨t :: ts, _, ht, .description⟩
  all_goals
    simp only [set_eq, within, heading, pure_bind, yields_bind] at h
    obtain ⟨texts, _, ht, h⟩ := h
    obtain ⟨rfl, rfl⟩ := yields_pure.mp h
    refine ⟨texts, _, ht, ?_⟩
    constructor

end composition

/-! ### What the traversal comes to -/

/-- Setting `n` from the state `σ` comes to the node `m`, in the state `τ`. -/
inductive Reaches : State → Node → State → Node → Prop
  | refl (σ : State) (n : Node) : Reaches σ n σ n
  | part {σ σ' τ : State} {n m p : Node} {before after : List Node} {texts : List (List Char)}
      (split : n.parts = before ++ p :: after)
      (run : (setAll before).Yields (n.enter σ) texts σ') (rest : Reaches σ' p τ m) :
      Reaches σ n τ m

theorem Reaches.trans {σ₁ σ₂ σ₃ : State} {n₁ n₂ n₃ : Node} (h₁ : Reaches σ₁ n₁ σ₂ n₂)
    (h₂ : Reaches σ₂ n₂ σ₃ n₃) : Reaches σ₁ n₁ σ₃ n₃ := by
  induction h₁ with
  | refl => exact h₂
  | part split run _ ih => exact .part split run (ih h₂)

theorem Reaches.of_parts_singleton {σ τ : State} {n m p : Node} (hp : n.parts = [p])
    (h : Reaches σ n τ m) : τ = σ ∧ m = n ∨ Reaches (n.enter σ) p τ m := by
  cases h with
  | refl => exact .inl ⟨rfl, rfl⟩
  | part split run rest =>
      rw [hp] at split
      obtain ⟨rfl, e⟩ := List.append_eq_singleton_iff.mp split.symm |>.resolve_right (by simp)
      cases e
      obtain ⟨-, rfl⟩ := yields_setAll_nil.mp run
      exact .inr rest

/-- What holds of every node of a list, from the state in which it is set, holds of all texts. -/
theorem forall₂_of_yields_setAll {Q : Node → List Char → Prop} {nodes : List Node} {σ τ : State}
    {texts : List (List Char)} (h : (setAll nodes).Yields σ texts τ)
    (hQ : ∀ before p after ts σ' t τ', nodes = before ++ p :: after →
      (setAll before).Yields σ ts σ' → p.set.Yields σ' t τ' → Q p t) :
    List.Forall₂ Q nodes texts := by
  induction nodes generalizing σ texts with
  | nil =>
      obtain ⟨rfl, rfl⟩ := yields_setAll_nil.mp h
      exact .nil
  | cons n rest ih =>
      obtain ⟨t, ts, σ', hn, hr, rfl⟩ := yields_setAll_cons.mp h
      refine .cons (hQ [] n rest [] σ t σ' rfl (yields_setAll_nil.mpr ⟨rfl, rfl⟩) hn) ?_
      refine ih hr fun before p after ts' σ'' t' τ' e hb hp => ?_
      exact hQ (n :: before) p after (t :: ts') σ'' t' τ' (by rw [e]; rfl)
        (yields_setAll_cons.mpr ⟨t, ts', σ', hn, hb, rfl⟩) hp

/-- **Induction over a traversal.**  If every node that is reached gets `Q` from its parts, the
whole has it. -/
theorem Node.yields_induction {Q : Node → List Char → Prop} {n : Node} {σ τ : State}
    {s : List Char} (h : n.set.Yields σ s τ)
    (step : ∀ m σ₁ t σ₂ texts σ₃, Reaches σ n σ₁ m → m.set.Yields σ₁ t σ₂ →
      (setAll m.parts).Yields (m.enter σ₁) texts σ₃ → Composed σ₁ m σ₃ texts t σ₂ →
      List.Forall₂ Q m.parts texts → Q m t) : Q n s := by
  induction n using Node.induction generalizing σ s τ with
  | step n ih =>
      obtain ⟨texts, σ', ht, hc⟩ := composed_of_yields h
      refine step n σ s τ texts σ' (.refl σ n) h ht hc (forall₂_of_yields_setAll ht ?_)
      intro before p after ts σ'' t τ' e hb hp
      have hp' : p ∈ n.parts := by rw [e]; simp
      refine ih p hp' hp fun m σ₁ t₁ σ₂ texts₁ σ₃ hr => ?_
      exact step m σ₁ t₁ σ₂ texts₁ σ₃ (.part e hb hr)

end ManualPages.Page
