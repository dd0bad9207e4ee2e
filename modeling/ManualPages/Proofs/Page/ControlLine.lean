import ManualPages.Proofs.Page.Traversal
import ManualPages.Proofs.Roff.Font

/-! # Control lines in running text

Every text node is escaped before it is set, so that none of its lines is a control line.  What is
done to it afterwards keeps it so, with one exception: a reference within the document loses its
`function#`, and what stood behind that mark may begin a line then without having been guarded.

* `Exposes σ n u c`: in the text that `n` sets from `σ`, a control character `c` stands behind `u`
  that was left bare in this way and has not been escaped since.
* `exists_controlLine_iff_exposes`: running text has a control line exactly if such a character
  begins a line of it; in particular it has none if no reference leaves a control character bare.
* `control_line_of_function_reference`: there are references that do. -/

namespace ManualPages.Page

open Setting

/-- `body` is the text of a reference within the document that setting `n` from `σ` comes to, before
it is shortened. -/
def SetsReference (σ : State) (n : Node) (body : List Char) : Prop :=
  ∃ name content τ τ', Reaches σ n τ (.inline (.reference (.label name none) content)) ∧
    (inlines content).Yields τ body τ'

/-- In the text that `n` sets from `σ`, the control character `c` stands behind `u`; it was left
bare when a reference was shortened, and no bold text around it has escaped it. -/
inductive Exposes : State → Node → List Char → Char → Prop
  | bare {σ τ : State} {name : String} {content : List Inline} {c : Char} {rest : List Char}
      (body : (inlines content).Yields σ (functionMark ++ c :: rest) τ)
      (control : Roff.isControl c = true) :
      Exposes σ (.inline (.reference (.label name none) content)) [] c
  | first {σ : State} {node : Inline} {rest : List Inline} {u : List Char} {c : Char}
      (inside : Exposes σ (.inline node) u c) : Exposes σ (.running (node :: rest)) u c
  | later {σ σ' : State} {node : Inline} {rest : List Inline} {t u : List Char} {c : Char}
      (front : (inline node).Yields σ t σ') (inside : Exposes σ' (.running rest) u c) :
      Exposes σ (.running (node :: rest)) (t ++ u) c
  | emphasis {σ : State} {content : List Inline} {u : List Char} {c : Char}
      (inside : Exposes σ (.running content) u c) :
      Exposes σ (.inline (.span .emphasis content)) (Roff.font 'I' ++ u) c
  | code {σ : State} {content : List Inline} {u : List Char} {c : Char}
      (inside : Exposes σ (.running content) u c) (notFirst : c = '.' → '.' ∈ u) :
      Exposes σ (.inline (.span .code content))
        ((Roff.zeroWidth ++ Roff.font 'B') ++ Roff.escapePoint u) c
  | entry {σ τ : State} {content : List Inline} {t u : List Char} {c : Char}
      (inside : Exposes σ (.running content) u c) (notFirst : c = '.' → '.' ∈ u)
      (body : (inlines content).Yields σ t τ)
      (new : String.ofList (indexTerm content) ∉ τ.index.terms) :
      Exposes σ (.inline (.span .index content))
        ((Roff.zeroWidth ++ Roff.font 'B') ++ Roff.escapePoint u) c
  | plain {σ : State} {role : Role} {content : List Inline} {u : List Char} {c : Char}
      (unmarked : role = .var ∨ role = .keyboard) (inside : Exposes σ (.running content) u c) :
      Exposes σ (.inline (.span role content)) u c
  | outward {σ : State} {target : Target} {content : List Inline} {u : List Char} {c : Char}
      (elsewhere : ∀ name, target ≠ .label name none)
      (inside : Exposes σ (.running content) u c) :
      Exposes σ (.inline (.reference target content)) u c
  | shortened {σ : State} {name : String} {content : List Inline} {u : List Char} {c : Char}
      (inside : Exposes σ (.running content) (functionMark ++ u) c) :
      Exposes σ (.inline (.reference (.label name none) content)) u c
  | whole {σ : State} {name : String} {content : List Inline} {u : List Char} {c : Char}
      (unmarked : ¬ functionMark <+: u) (inside : Exposes σ (.running content) u c) :
      Exposes σ (.inline (.reference (.label name none) content)) u c

/-! ### Every control line is exposed -/

theorem stripFront_functionMark_cases (t : List Char) :
    (∃ r, t = functionMark ++ r ∧ (Text.stripFront functionMark t).getD t = r) ∨
      ¬ functionMark <+: t ∧ (Text.stripFront functionMark t).getD t = t := by
  cases h : Text.stripFront functionMark t with
  | some r => exact .inl ⟨r, Text.stripFront_eq_some.mp h, rfl⟩
  | none =>
      refine .inr ⟨?_, rfl⟩
      rintro ⟨r, rfl⟩
      rw [Text.stripFront_eq_some.mpr rfl] at h
      cases h

theorem functionMark_prefix_of_append {u v r : List Char} {c : Char}
    (h : u ++ c :: v = functionMark ++ r) (hc : Roff.isControl c = true) : functionMark <+: u := by
  have hmark : functionMark.any Roff.isControl = false := by decide
  rcases List.append_eq_append_iff.mp h with ⟨q, e, e'⟩ | ⟨q, rfl, -⟩
  · rcases q with _ | ⟨x, q⟩
    · exact ⟨[], by rw [List.append_nil, e, List.append_nil]⟩
    · obtain ⟨rfl, -⟩ := List.cons.inj e'
      have hm : c ∈ functionMark := by
        rw [e]
        simp
      exact absurd hc (List.any_eq_false.mp hmark c hm)
  · exact List.prefix_append _ _

/-- Every control character that begins a line of the text of `n` was left bare. -/
def Accounted (n : Node) : Prop :=
  ∀ ⦃σ τ : State⦄ ⦃s u v : List Char⦄ ⦃c : Char⦄, n.set.Yields σ s τ → s = u ++ c :: v →
    Roff.lineStart true u = true → Roff.isControl c = true → Exposes σ n u c

theorem accounted_inline {node : Inline}
    (ih : ∀ content, .running content ∈ (Node.inline node).parts → Accounted (.running content)) :
    Accounted (.inline node) := by
  intro σ τ s u v c h hs hu hc
  have hctrl := Roff.hasControl_iff.mpr ⟨u, c, v, hs, hu, hc⟩
  obtain ⟨texts, σ', ht, hcomp⟩ := composed_of_yields_inline h
  cases hcomp with
  | text =>
      rw [Roff.hasControl_escape] at hctrl
      exact absurd hctrl (by decide)
  | verb =>
      rw [Roff.hasControl_escape] at hctrl
      exact absurd hctrl (by decide)
  | emphasis =>
      obtain ⟨u', v', e, rfl, hu'⟩ := Roff.italic_eq_append hs hu hc
      exact .emphasis (ih _ (by simp [Node.parts]) (yields_setAll_running.mp ht) e hu' hc)
  | code =>
      obtain ⟨u', v', e, rfl, hu', hp⟩ := Roff.bold_eq_append hs hu hc
      exact .code (ih _ (by simp [Node.parts]) (yields_setAll_running.mp ht) e hu' hc) hp
  | newEntry new =>
      have ht' := yields_setAll_running.mp ht
      obtain ⟨u', v', e, rfl, hu', hp⟩ := Roff.bold_eq_append hs hu hc
      exact .entry (ih _ (by simp [Node.parts]) ht' e hu' hc) hp ht' new
  | oldEntry => simp at hs
  | footnote => simp at hs
  | var =>
      exact .plain (.inl rfl) (ih _ (by simp [Node.parts]) (yields_setAll_running.mp ht) hs hu hc)
  | keyboard =>
      exact .plain (.inr rfl) (ih _ (by simp [Node.parts]) (yields_setAll_running.mp ht) hs hu hc)
  | url =>
      exact .outward (by simp)
        (ih _ (by simp [Node.parts]) (yields_setAll_running.mp ht) hs hu hc)
  | otherFile =>
      exact .outward (by simp)
        (ih _ (by simp [Node.parts]) (yields_setAll_running.mp ht) hs hu hc)
  | @sameFile name content τ t =>
      have ht' := yields_setAll_running.mp ht
      have ih' := ih content (by simp [Node.parts])
      rcases stripFront_functionMark_cases t with ⟨r, rfl, e⟩ | ⟨hn, e⟩
      · rw [e] at hs
        subst hs
        cases u with
        | nil => exact .bare ht' hc
        | cons x u =>
            refine .shortened (ih' (v := v) ht' (by simp) ?_ hc)
            rw [Roff.lineStart_append]
            exact hu
      · rw [e] at hs
        refine .whole (fun hp => hn ?_) (ih' ht' hs hu hc)
        rw [hs]
        exact hp.trans (List.prefix_append _ _)

theorem accounted_running {content : List Inline}
    (ih : ∀ node ∈ content, Accounted (.inline node)) : Accounted (.running content) := by
  induction content with
  | nil =>
      intro σ τ s u v c h hs hu hc
      rw [Node.set, inlines, yields_pure] at h
      rw [h.1] at hs
      simp at hs
  | cons node rest ih' =>
      have hrest := ih' fun x hx => ih x (List.mem_cons_of_mem node hx)
      intro σ τ s u v c h hs hu hc
      simp only [Node.set, inlines, yields_bind, yields_pure] at h
      obtain ⟨t, σ', ht, ts, _, hts, rfl, rfl⟩ := h
      rcases List.append_eq_append_iff.mp hs with ⟨u', rfl, e⟩ | ⟨q, rfl, e⟩
      · rw [Roff.lineStart_append] at hu
        exact .later ht (hrest hts e (Roff.lineStart_true hu) hc)
      · rcases q with _ | ⟨x, q⟩
        · rw [List.append_nil] at ht
          rw [← List.append_nil u]
          exact .later ht (hrest hts e.symm rfl hc)
        · obtain ⟨rfl, -⟩ := List.cons.inj e
          exact .first (ih node (by simp) ht rfl hu hc)

/-! ### Nothing else is exposed -/

/-- What is exposed is a control character of the text. -/
theorem Exposes.eq_append {σ : State} {n : Node} {u : List Char} {c : Char} (h : Exposes σ n u c)
    {s : List Char} {τ : State} (hs : n.set.Yields σ s τ) :
    Roff.isControl c = true ∧ ∃ v, s = u ++ c :: v := by
  induction h generalizing s τ with
  | @bare σ τ' name content c rest body control =>
      refine ⟨control, rest, ?_⟩
      obtain ⟨texts, _, ht, hc⟩ := composed_of_yields_inline hs
      cases hc
      obtain ⟨rfl, rfl⟩ := body.unique (yields_setAll_running.mp ht)
      rw [Text.stripFront_eq_some.mpr rfl]
      rfl
  | first inside ih =>
      simp only [Node.set, inlines, yields_bind, yields_pure] at hs
      obtain ⟨t, _, ht, ts, _, hts, rfl, rfl⟩ := hs
      obtain ⟨hc, v, rfl⟩ := ih ht
      exact ⟨hc, v ++ ts, by simp⟩
  | later front inside ih =>
      simp only [Node.set, inlines, yields_bind, yields_pure] at hs
      obtain ⟨t, _, ht, ts, _, hts, rfl, rfl⟩ := hs
      obtain ⟨rfl, rfl⟩ := front.unique ht
      obtain ⟨hc, v, rfl⟩ := ih hts
      exact ⟨hc, v, by simp⟩
  | emphasis inside ih =>
      obtain ⟨texts, _, ht, hc⟩ := composed_of_yields_inline hs
      cases hc
      obtain ⟨hc, v, rfl⟩ := ih (yields_setAll_running.mp ht)
      exact ⟨hc, v ++ Roff.font 'P', by simp [Roff.italic]⟩
  | code inside notFirst ih =>
      obtain ⟨texts, _, ht, hc⟩ := composed_of_yields_inline hs
      cases hc
      obtain ⟨hc, v, rfl⟩ := ih (yields_setAll_running.mp ht)
      obtain ⟨v', e⟩ := Roff.escapePoint_append notFirst v
      exact ⟨hc, v' ++ Roff.font 'P', by rw [Roff.bold_eq, e]; simp⟩
  | entry inside notFirst body new ih =>
      obtain ⟨texts, _, ht, hc⟩ := composed_of_yields_inline hs
      cases hc with
      | newEntry _ =>
          obtain ⟨hc, v, rfl⟩ := ih (yields_setAll_running.mp ht)
          obtain ⟨v', e⟩ := Roff.escapePoint_append notFirst v
          exact ⟨hc, v' ++ Roff.font 'P', by rw [Roff.bold_eq, e]; simp⟩
      | oldEntry old =>
          obtain ⟨-, rfl⟩ := body.unique (yields_setAll_running.mp ht)
          exact absurd old new
  | plain unmarked inside ih =>
      obtain ⟨texts, _, ht, hc⟩ := composed_of_yields_inline hs
      rcases unmarked with rfl | rfl <;> cases hc <;> exact ih (yields_setAll_running.mp ht)
  | outward elsewhere inside ih =>
      obtain ⟨texts, _, ht, hc⟩ := composed_of_yields_inline hs
      cases hc with
      | url => exact ih (yields_setAll_running.mp ht)
      | otherFile => exact ih (yields_setAll_running.mp ht)
      | sameFile => exact absurd rfl (elsewhere _)
  | shortened inside ih =>
      obtain ⟨texts, _, ht, hc⟩ := composed_of_yields_inline hs
      cases hc
      obtain ⟨hc, v, rfl⟩ := ih (yields_setAll_running.mp ht)
      refine ⟨hc, v, ?_⟩
      rw [List.append_assoc, Text.stripFront_eq_some.mpr rfl]
      rfl
  | @whole _ _ _ u c unmarked inside ih =>
      obtain ⟨texts, _, ht, hc⟩ := composed_of_yields_inline hs
      cases hc
      obtain ⟨hc, v, rfl⟩ := ih (yields_setAll_running.mp ht)
      refine ⟨hc, v, ?_⟩
      rcases stripFront_functionMark_cases (u ++ c :: v) with ⟨r, e, -⟩ | ⟨-, e⟩
      · exact absurd (functionMark_prefix_of_append e hc) unmarked
      · exact e

/-! ### Running text -/

/-- The node stands in running text. -/
def Node.IsRunning : Node → Prop
  | .inline _ => True
  | .running _ => True
  | _ => False

theorem accounted {n : Node} (h : n.IsRunning) : Accounted n := by
  induction n using Node.induction with
  | step n ih =>
      cases n with
      | inline node => exact accounted_inline fun content hp => ih _ hp trivial
      | running content =>
          exact accounted_running fun node hn => ih _ (List.mem_map_of_mem hn) trivial
      | _ => exact h.elim

theorem SetsReference.of_part {σ σ' : State} {n p : Node} {before after : List Node}
    {texts : List (List Char)} {body : List Char} (h : SetsReference σ' p body)
    (split : n.parts = before ++ p :: after)
    (run : (setAll before).Yields (n.enter σ) texts σ') : SetsReference σ n body := by
  obtain ⟨name, content, τ, τ', hr, hb⟩ := h
  exact ⟨name, content, τ, τ', .part split run hr, hb⟩

theorem SetsReference.of_content {σ : State} {node : Inline} {content : List Inline}
    {body : List Char} (h : SetsReference σ (.running content) body)
    (split : Node.parts (.inline node) = [.running content]) :
    SetsReference σ (.inline node) body :=
  h.of_part split (yields_setAll_nil.mpr ⟨rfl, rfl⟩)

theorem SetsReference.of_rest {σ σ' : State} {node : Inline} {rest : List Inline}
    {t body : List Char} (front : (inline node).Yields σ t σ')
    (h : SetsReference σ' (.running rest) body) :
    SetsReference σ (.running (node :: rest)) body := by
  obtain ⟨name, content, τ, τ', hr, hb⟩ := h
  cases hr with
  | @part _ _ _ _ _ p before after _ split run hr =>
      have split' : Node.parts (.running (node :: rest)) = (.inline node :: before) ++ p :: after :=
        congrArg (Node.inline node :: ·) split
      have run' := yields_setAll_cons (n := .inline node).mpr ⟨t, _, σ', front, run, rfl⟩
      exact ⟨name, content, τ, τ', .part split' run' hr, hb⟩

/-- A character that is left bare stands behind the `function#` of a reference. -/
theorem Exposes.setsReference {σ : State} {n : Node} {u : List Char} {c : Char}
    (h : Exposes σ n u c) : ∃ rest, SetsReference σ n (functionMark ++ c :: rest) := by
  induction h with
  | bare body control => exact ⟨_, _, _, _, _, .refl _ _, body⟩
  | first inside ih =>
      obtain ⟨rest, h⟩ := ih
      exact ⟨rest, h.of_part rfl (yields_setAll_nil.mpr ⟨rfl, rfl⟩)⟩
  | later front inside ih =>
      obtain ⟨rest, h⟩ := ih
      exact ⟨rest, h.of_rest front⟩
  | plain unmarked inside ih =>
      obtain ⟨rest, h⟩ := ih
      rcases unmarked with rfl | rfl <;> exact ⟨rest, h.of_content rfl⟩
  | emphasis _ ih | code _ _ ih | entry _ _ _ _ ih | outward _ _ ih | shortened _ ih
  | whole _ _ ih =>
      obtain ⟨rest, h⟩ := ih
      exact ⟨rest, h.of_content rfl⟩

/-- The control lines of running text are the exposed characters that begin a line. -/
theorem hasControl_iff_exposes {σ τ : State} {content : List Inline} {s : List Char}
    (h : (inlines content).Yields σ s τ) : Roff.hasControl true s = true ↔
      ∃ u c, Roff.lineStart true u = true ∧ Exposes σ (.running content) u c := by
  rw [Roff.hasControl_iff]
  constructor
  · rintro ⟨u, c, v, hs, hu, hc⟩
    exact ⟨u, c, hu, accounted (n := .running content) trivial h hs hu hc⟩
  · rintro ⟨u, c, hu, hx⟩
    obtain ⟨hc, v, rfl⟩ := hx.eq_append h
    exact ⟨u, c, v, rfl, hu, hc⟩

theorem hasControl_of_guarded {σ τ : State} {content : List Inline} {s : List Char}
    (h : (inlines content).Yields σ s τ)
    (guarded : ∀ c rest, SetsReference σ (.running content) (functionMark ++ c :: rest) →
      Roff.isControl c = false) : Roff.hasControl true s = false := by
  rw [← Bool.not_eq_true, hasControl_iff_exposes h]
  rintro ⟨u, c, -, hx⟩
  obtain ⟨hc, -⟩ := hx.eq_append h
  obtain ⟨rest, hr⟩ := hx.setsReference
  rw [guarded c rest hr] at hc
  exact absurd hc (by decide)

/-- **Control lines in running text.**  A line of the text begins with a control character exactly
if one that was left bare behind a `function#` begins it.  There is no such line if no reference
within the document has a control character behind its mark. -/
theorem exists_controlLine_iff_exposes {σ τ : State} {content : List Inline} {s : List Char}
    (h : (inlines content).Yields σ s τ) :
    ((∃ l ∈ Roff.lines s, Roff.isControlLine l = true) ↔
      ∃ u c, Roff.EndsLine u ∧ Exposes σ (.running content) u c) ∧
    ((∀ c rest, SetsReference σ (.running content) (functionMark ++ c :: rest) →
      Roff.isControl c = false) → ∀ l ∈ Roff.lines s, Roff.isControlLine l = false) := by
  constructor
  · rw [Roff.exists_controlLine_iff, hasControl_iff_exposes h]
    simp only [Roff.endsLine_iff]
  · intro guarded l hl
    have hs := hasControl_of_guarded h guarded
    rw [← Bool.not_eq_true, ← Roff.exists_controlLine_iff] at hs
    rw [← Bool.not_eq_true]
    exact fun hc => hs ⟨l, hl, hc⟩

/-- A reference to `function#.x` at the start of a line is set as a control line. -/
theorem control_line_of_function_reference :
    (inlines [.text "see\n", .reference (.label "x" none) [.text "function#.x"]]).Yields .initial
      "see\n.x".toList .initial ∧
    ∃ l ∈ Roff.lines "see\n.x".toList, Roff.isControlLine l = true := by
  have run : (inlines [.text "see\n", .reference (.label "x" none) [.text "function#.x"]]).Yields
      .initial "see\n.x".toList .initial := rfl
  have front : (inline (.text "see\n")).Yields .initial "see\n".toList .initial := rfl
  have body : (inlines [.text "function#.x"]).Yields .initial (functionMark ++ '.' :: ['x'])
      .initial := rfl
  refine ⟨run, (exists_controlLine_iff_exposes run).1.mpr ⟨"see\n".toList, '.', ?_, ?_⟩⟩
  · exact .inr (by decide)
  · exact .later front (.first (.bare body (by decide)))

end ManualPages.Page
