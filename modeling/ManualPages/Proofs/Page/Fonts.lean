import ManualPages.Proofs.Page.Traversal
import ManualPages.Proofs.Page.Visits
import ManualPages.Proofs.Roff.Reading

/-! # The font behind running text

Emphasis, code and the first mention of an index term each select a font and go back to the one
before.  Roff knows one font to go back to, and so the font in use is kept if none of them is shown
within another, and is lost otherwise.

* `fontDepthAll`: how many of them are shown one within another.
* `fontsNest_inline`, `fontsNest_inlines`: the source selects fonts that deep, by the tree.
* `current_after_inlines_iff`: the font in use is kept exactly if the depth is at most one. -/

namespace ManualPages.Page

open Setting
open Roff (FontsNest Fonts)

mutual

/-- How many fonts the source of a node selects one within another.  `index` holds the terms that
were met before; an index entry that is left out selects none. -/
def fontDepth (index : TermIndex) : Inline → ℕ
  | .text _ => 0
  | .verb _ => 0
  | .span .emphasis content => fontDepthAll index content + 1
  | .span .code content => fontDepthAll index content + 1
  | .span .index content =>
    if String.ofList (indexTerm content) ∈
        (index.registerAll (keys (Node.running content).visits)).terms then 0
    else fontDepthAll index content + 1
  | .span .footnote _ => 0
  | .span .var content => fontDepthAll index content
  | .span .keyboard content => fontDepthAll index content
  | .reference _ content => fontDepthAll index content

/-- The same of nodes that follow one another. -/
def fontDepthAll (index : TermIndex) : List Inline → ℕ
  | [] => 0
  | node :: rest => max (fontDepth index node)
      (fontDepthAll (index.registerAll (keys (Node.inline node).visits)) rest)

end

theorem fontsNest_span {σ τ : State} {role : Role} {content : List Inline} {s : List Char}
    (h : (inline (.span role content)).Yields σ s τ)
    (body : ∀ t σ', (inlines content).Yields σ t σ' → FontsNest t (fontDepthAll σ.index content)) :
    FontsNest s (fontDepth σ.index (.span role content)) := by
  obtain ⟨texts, σ', ht, hc⟩ := composed_of_yields_inline h
  cases hc with
  | footnote => exact Roff.fontsNest_nil
  | emphasis => exact (body _ _ (yields_setAll_running.mp ht)).italic
  | code => exact (body _ _ (yields_setAll_running.mp ht)).bold
  | var => exact body _ _ (yields_setAll_running.mp ht)
  | keyboard => exact body _ _ (yields_setAll_running.mp ht)
  | newEntry new =>
      have run := yields_setAll_running.mp ht
      have index : σ'.index = _ := Node.index_eq_of_yields (n := .running content) run
      rw [index] at new
      rw [fontDepth, if_neg new]
      exact (body _ _ run).bold
  | oldEntry old =>
      have run := yields_setAll_running.mp ht
      have index : τ.index = _ := Node.index_eq_of_yields (n := .running content) run
      rw [index] at old
      rw [fontDepth, if_pos old]
      exact Roff.fontsNest_nil

theorem fontsNest_reference {σ τ : State} {target : Target} {content : List Inline} {s : List Char}
    (h : (inline (.reference target content)).Yields σ s τ)
    (body : ∀ t σ', (inlines content).Yields σ t σ' → FontsNest t (fontDepthAll σ.index content)) :
    FontsNest s (fontDepth σ.index (.reference target content)) := by
  obtain ⟨texts, σ', ht, hc⟩ := composed_of_yields_inline h
  cases hc with
  | url => exact body _ _ (yields_setAll_running.mp ht)
  | otherFile => exact body _ _ (yields_setAll_running.mp ht)
  | @sameFile name content _ t =>
      have whole := body t _ (yields_setAll_running.mp ht)
      cases strip : Text.stripFront functionMark t with
      | none => exact whole
      | some r =>
          rw [Text.stripFront_eq_some.mp strip] at whole
          exact whole.of_append (by decide)

mutual

/-- How deep an inline node that has been set selects fonts. -/
theorem fontsNest_inline : (node : Inline) → {σ τ : State} → {s : List Char} →
    (inline node).Yields σ s τ → FontsNest s (fontDepth σ.index node)
  | .text x, σ, τ, s, h => by
      obtain ⟨rfl, -⟩ := yields_pure.mp h
      exact Roff.fontsNest_escape x.toList
  | .verb x, σ, τ, s, h => by
      obtain ⟨rfl, -⟩ := yields_pure.mp h
      exact Roff.fontsNest_escape x.toList
  | .span role content, σ, τ, s, h =>
      fontsNest_span h fun t σ' run => fontsNest_inlines content run
  | .reference target content, σ, τ, s, h =>
      fontsNest_reference h fun t σ' run => fontsNest_inlines content run

/-- How deep running text that has been set selects fonts. -/
theorem fontsNest_inlines : (content : List Inline) → {σ τ : State} → {s : List Char} →
    (inlines content).Yields σ s τ → FontsNest s (fontDepthAll σ.index content)
  | [], σ, τ, s, h => by
      obtain ⟨rfl, -⟩ := yields_pure.mp h
      exact Roff.fontsNest_nil
  | node :: rest, σ, τ, s, h => by
      simp only [inlines, yields_bind, yields_pure] at h
      obtain ⟨t, σ', first, u, _, others, rfl, rfl⟩ := h
      have index : σ'.index = _ := Node.index_eq_of_yields (n := .inline node) first
      have behind := fontsNest_inlines rest others
      rw [index] at behind
      exact (fontsNest_inline node first).append behind

end

/-- **The font behind running text.**  Text that has been set leaves the font in use as it was,
whatever fonts were known before, exactly if no font is selected within another.  If one is, the
fonts are the same behind the text whatever they were before it. -/
theorem current_after_inlines_iff {σ τ : State} {content : List Inline} {s : List Char}
    (h : (inlines content).Yields σ s τ) :
    ((∀ f : Fonts, (f.after s).current = f.current) ↔ fontDepthAll σ.index content ≤ 1) ∧
      (1 < fontDepthAll σ.index content → ∃ g, ∀ f : Fonts, f.after s = g) := by
  have nest := fontsNest_inlines content h
  exact ⟨nest.current_after_iff, nest.exists_after_eq⟩

/-- Code within emphasis: text behind it is bold. -/
theorem current_after_nested_code :
    (inlines [.span .emphasis [.span .code [.text "b"]]]).Yields .initial
      "\\fI\\&\\fBb\\fP\\fP".toList .initial ∧
    ¬ (∀ f : Fonts, (f.after "\\fI\\&\\fBb\\fP\\fP".toList).current = f.current) ∧
    (Fonts.after ⟨.other "R", .other "R"⟩ "\\fI\\&\\fBb\\fP\\fP".toList).current = .bold := by
  have run : (inlines [.span .emphasis [.span .code [.text "b"]]]).Yields .initial
      "\\fI\\&\\fBb\\fP\\fP".toList .initial := rfl
  refine ⟨run, fun kept => ?_, rfl⟩
  have flat : fontDepthAll TermIndex.empty [.span .emphasis [.span .code [.text "b"]]] ≤ 1 :=
    (current_after_inlines_iff run).1.mp kept
  have deep : fontDepthAll TermIndex.empty [.span .emphasis [.span .code [.text "b"]]] = 2 := rfl
  omega

end ManualPages.Page
