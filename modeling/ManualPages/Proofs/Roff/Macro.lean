import ManualPages.Proofs.Roff.Lines

/-! # Macro calls

A control line of a page calls a macro of the `man` package.  `Calls macros s` says that the control
lines of a text are calls of these macros, in this order and with none in between.

* `Calls.lines_point`: with the calls known, the lines that begin with a point are known, and no
  line begins with an apostrophe.
* `Calls.chomp`: taking a line terminator away loses no call.
* `Frames macros s` says besides that the text ends its last line.  Such texts can be put together:
  `Frames.append`, `Frames.flatten`, `Frames.join`. -/

namespace ManualPages.Roff

/-- The macros that the body of a page calls. -/
inductive Macro where
  | sectionHead
  | subsectionHead
  | paragraph
  | noFill
  | fill
  | indented
  | bold
  | tagged
deriving DecidableEq, Repr

/-- The line calls the macro.  The line of a headline goes on with the title; every other call is a
line of its own. -/
def Macro.Reads : Macro → List Char → Prop
  | sectionHead, l => ".SH ".toList <+: l
  | subsectionHead, l => ".SS ".toList <+: l
  | paragraph, l => l = ".PP".toList
  | noFill, l => l = ".nf".toList
  | fill, l => l = ".fi".toList
  | indented, l => l = ".IP".toList
  | bold, l => l = ".B".toList
  | tagged, l => l = ".TP".toList

/-- The control lines of the text call these macros. -/
def Calls (macros : List Macro) (s : List Char) : Prop :=
  List.Forall₂ Macro.Reads macros (controls s)

/-- The text consists of whole lines, and its control lines call these macros. -/
structure Frames (macros : List Macro) (s : List Char) : Prop where
  ended : EndsLine s
  calls : Calls macros s

theorem Macro.Reads.head? {m : Macro} {l : List Char} (h : m.Reads l) : l.head? = some '.' := by
  cases m
  case sectionHead | subsectionHead =>
    obtain ⟨t, rfl⟩ := h
    rfl
  all_goals
    cases h
    rfl

theorem Macro.Reads.of_losesReturn {m : Macro} {l l' : List Char} (h : m.Reads l)
    (hl : LosesReturn l l') : m.Reads l' := by
  rcases hl with rfl | rfl
  · exact h
  · cases m
    case sectionHead | subsectionHead =>
      rcases List.prefix_concat_iff.mp h with e | h
      · exact absurd (congrArg List.getLast? e) (by simp)
      · exact h
    all_goals exact absurd (congrArg List.getLast? h) (by simp)

namespace Calls

variable {ms ms' : List Macro} {s t : List Char}

theorem nil_iff : Calls [] s ↔ hasControl true s = false := by
  rw [Calls, List.forall₂_nil_left_iff, controls_eq_nil_iff]

theorem append (end_s : EndsLine s) (hs : Calls ms s) (ht : Calls ms' t) :
    Calls (ms ++ ms') (s ++ t) := by
  unfold Calls at hs ht ⊢
  rw [controls_append end_s]
  exact List.rel_append hs ht

theorem of_losesReturn {ls ls' : List (List Char)} (h : List.Forall₂ Macro.Reads ms ls)
    (hl : List.Forall₂ LosesReturn ls ls') : List.Forall₂ Macro.Reads ms ls' := by
  induction h generalizing ls' with
  | nil =>
      cases hl
      exact .nil
  | cons hm _ ih =>
      cases hl with
      | cons h hl => exact .cons (hm.of_losesReturn h) (ih hl)

theorem chomp (h : Calls ms s) (hs : s.getLast? = some '\n') : Calls ms (chomp s) :=
  of_losesReturn h (controls_chomp hs)

/-- A headline: its title may go on over lines, as long as none of them is a control line. -/
theorem headline {m : Macro} {mark : List Char} (hm : ∀ l, m.Reads (mark ++ l))
    (hn : '\n' ∉ mark) (hne : mark ≠ []) (ht : hasControl true t = false) :
    Calls [m] (mark ++ t) := by
  have hc : isControlLine mark = true := by
    cases mark with
    | nil => exact absurd rfl hne
    | cons c mark =>
        have hp : some c = some '.' := (hm []).head?
        cases hp
        rfl
  obtain ⟨l, e⟩ := controls_append_of_isControlLine hc hn ht
  rw [Calls, e]
  exact .cons (hm l) .nil

/-- The lines of the text that begin with a point are the calls, and none begins with an
apostrophe. -/
theorem lines_point (h : Calls ms s) : (∀ l ∈ lines s, l.head? ≠ some '\'') ∧
    List.Forall₂ Macro.Reads ms ((lines s).filter fun l => l.head? = some '.') := by
  have point : ∀ l ∈ lines s, isControlLine l = true → l.head? = some '.' := by
    intro l hl hc
    have hm : l ∈ controls s := List.mem_filter.mpr ⟨hl, hc⟩
    obtain ⟨_, hr⟩ := exists_rel_of_mem h hm
    exact hr.head?
  constructor
  · intro l hl e
    have hp := point l hl (by simp [isControlLine, e, isControl])
    rw [e] at hp
    cases hp
  · have e : controls s = (lines s).filter fun l => l.head? = some '.' := by
      refine List.filter_congr fun l hl => ?_
      rw [Bool.eq_iff_iff, decide_eq_true_iff]
      exact ⟨point l hl, fun hp => by simp [isControlLine, hp, isControl]⟩
    rw [← e]
    exact h

theorem endLine (h : Calls ms s) : Frames ms (endLine s) := by
  refine ⟨endsLine_endLine s, ?_⟩
  unfold Calls
  rwa [controls_endLine]

theorem newline (h : Calls ms s) : Frames ms (s ++ ['\n']) := by
  refine ⟨endsLine_newline s, ?_⟩
  unfold Calls
  rwa [controls_append_newline]

end Calls

namespace Frames

variable {α : Type} {ms ms' : List Macro} {f : α → List Macro} {xs : List α} {s t : List Char}
  {texts : List (List Char)}

theorem append (hs : Frames ms s) (ht : Frames ms' t) : Frames (ms ++ ms') (s ++ t) :=
  ⟨hs.ended.append ht.ended, hs.calls.append hs.ended ht.calls⟩

theorem flatten (h : List.Forall₂ (fun x t => Frames (f x) t) xs texts) :
    Frames (xs.flatMap f) texts.flatten := by
  induction h with
  | nil => exact ⟨.inl rfl, .nil⟩
  | cons hx _ ih => exact hx.append ih

theorem join (h : List.Forall₂ (fun x t => Frames (f x) t) xs texts) :
    Frames (xs.flatMap f) (Text.join ['\n'] texts) := by
  induction h with
  | nil => exact ⟨.inl rfl, .nil⟩
  | cons hx hxs ih =>
      cases hxs with
      | nil => simpa using hx
      | cons _ _ => exact hx.calls.newline.append ih

theorem flatMap_endLine (h : List.Forall₂ (fun x t => Calls (f x) t) xs texts) :
    Frames (xs.flatMap f) (texts.flatMap endLine) :=
  flatten (List.forall₂_map_right_iff.mpr (h.imp fun _ _ hx => hx.endLine))

theorem closeFirstGap (h : Frames ms s) : Frames ms (closeFirstGap s) := by
  refine ⟨h.ended.closeFirstGap, ?_⟩
  unfold Calls
  rw [controls_closeFirstGap]
  exact h.calls

end Frames

end ManualPages.Roff
