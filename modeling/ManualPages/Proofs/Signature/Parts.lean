import ManualPages.Proofs.Text.Split
import ManualPages.Signature
import Mathlib.Data.List.TakeWhile

/-! # The parts of a descriptor

A descriptor is cut into owner, name and arguments, and nothing is lost: with the separator between
owner and name they make up the descriptor again.

* `exists_of_splitModule`, `splitModule_append`: a head without `#` is cut at a separator behind
  which there is no other one, wherever `.` and `::` meet or overlap.
* `Divides s text sep`: what a signature `s` of `text` has to be, with `sep` between owner and name.
* `exists_divides_parse`: so is the signature of every descriptor, and exchanging its arguments
  changes nothing but the arguments. -/

namespace ManualPages.Signature

/-! ### The last separator -/

/-- What stands between a module and the name of its function. -/
def IsModuleSeparator (sep : List Char) : Prop := sep = ['.'] ∨ sep = [':', ':']

/-- There is no such separator in the text. -/
def Undivided (text : List Char) : Prop := '.' ∉ text ∧ ¬ [':', ':'] <:+: text

theorem splitLast_colons_eq_some_iff {head owner name : List Char} :
    Text.splitLast [':', ':'] head = some (owner, name) ↔
      head = owner ++ [':', ':'] ++ name ∧ ¬ [':', ':'] <:+: ':' :: name :=
  Text.splitLast_eq_some_iff (List.cons_ne_nil _ _)

theorem suffix_of_length_le {a b c d : List Char} (h : a ++ b = c ++ d)
    (later : c.length ≤ a.length) : b <:+ d := by
  have lengths := congrArg List.length h
  simp only [List.length_append] at lengths
  exact List.suffix_of_suffix_length_le ⟨a, h⟩ (List.suffix_append c d) (by omega)

/-- Behind the cut there is no separator. -/
theorem exists_of_splitModule {head owner name : List Char}
    (h : splitModule head = some (owner, name)) :
    ∃ sep, IsModuleSeparator sep ∧ head = owner ++ sep ++ name ∧ Undivided name := by
  have behind_colons : ∀ {n : List Char}, ¬ [':', ':'] <:+: ':' :: n → ¬ [':', ':'] <:+: n :=
    fun last hi => last (hi.trans (List.suffix_cons ':' _).isInfix)
  unfold splitModule at h
  split at h
  · next dot colons hd hc =>
      obtain ⟨o, n⟩ := dot
      obtain ⟨o', n'⟩ := colons
      obtain ⟨ed, lastDot⟩ := Text.splitLast_singleton_eq_some_iff.mp hd
      obtain ⟨ec, lastColons⟩ := splitLast_colons_eq_some_iff.mp hc
      simp only at h
      split at h
      · next later =>
          cases h
          have behind : name <:+ ':' :: n' := by
            refine suffix_of_length_le (a := owner ++ ['.']) (c := o' ++ [':']) ?_ ?_
            · rw [List.append_assoc, List.append_assoc]
              exact ed.symm.trans (by simpa using ec)
            · simp only [List.length_append, List.length_singleton]
              omega
          exact ⟨['.'], .inl rfl, by simpa using ed, lastDot,
            fun hi => lastColons (hi.trans behind.isInfix)⟩
      · next notLater =>
          cases h
          have behind : name <:+ n := by
            refine suffix_of_length_le (a := owner ++ [':', ':']) (c := o ++ ['.']) ?_ ?_
            · rw [← ec, ed]
              simp
            · simp only [List.length_append, List.length_cons, List.length_nil]
              omega
          exact ⟨[':', ':'], .inr rfl, ec, fun hm => lastDot (behind.subset hm),
            behind_colons lastColons⟩
  · next dot hd hc =>
      cases h
      obtain ⟨rfl, lastDot⟩ := Text.splitLast_singleton_eq_some_iff.mp hd
      have noColons := Text.splitLast_eq_none_iff.mp hc
      have behind : name <:+ owner ++ '.' :: name := ⟨owner ++ ['.'], by simp⟩
      exact ⟨['.'], .inl rfl, by simp, lastDot, fun hi => noColons (hi.trans behind.isInfix)⟩
  · next hd =>
      obtain ⟨rfl, lastColons⟩ := splitLast_colons_eq_some_iff.mp h
      have noDot := Text.splitLast_singleton_eq_none_iff.mp hd
      exact ⟨[':', ':'], .inr rfl, rfl, fun hm => noDot (by simp [hm]), behind_colons lastColons⟩

/-- A point is the cut if there is no separator behind it. -/
theorem splitModule_append {owner name : List Char} (h : Undivided name) :
    splitModule (owner ++ '.' :: name) = some (owner, name) := by
  have dot : Text.splitLast ['.'] (owner ++ '.' :: name) = some (owner, name) :=
    Text.splitLast_singleton_eq_some_iff.mpr ⟨rfl, h.1⟩
  unfold splitModule
  rw [dot]
  cases hc : Text.splitLast [':', ':'] (owner ++ '.' :: name) with
  | none => rfl
  | some colons =>
      obtain ⟨o, n⟩ := colons
      obtain ⟨e, -⟩ := splitLast_colons_eq_some_iff.mp hc
      have earlier : o.length < owner.length := by
        by_contra later
        have behind : [':', ':'] ++ n <:+ '.' :: name := by
          refine suffix_of_length_le (a := o) (c := owner) ?_ (by omega)
          rw [e, List.append_assoc]
        have colons : [':', ':'] <:+: '.' :: name :=
          (List.prefix_append [':', ':'] n).isInfix.trans behind.isInfix
        rcases List.infix_cons_iff.mp colons with front | inside
        · exact absurd (List.cons_prefix_cons.mp front).1 (by decide)
        · exact h.2 inside
      exact congrArg some (if_pos earlier)

/-! ### Owner and name -/

/-- The text is made up of the parts of the signature, with `sep` between owner and name, and the
separator is the one that the relation asks for. -/
structure Divides (s : Signature) (text sep : List Char) : Prop where
  eq_append : text = s.owner ++ sep ++ s.name ++ s.args
  head : ∀ c ∈ s.owner ++ sep ++ s.name, endsHead c = false
  args : ∀ c ∈ s.args.head?, endsHead c = true
  separator : sep = [] ∨ sep = ['#'] ∨ IsModuleSeparator sep
  owner_eq_nil_iff : s.owner = [] ↔ s.relation = .function
  ofInstance : s.relation = .ofInstance →
    sep = ['#'] ∧ s.owner ≠ [] ∧ s.name ≠ [] ∧ '#' ∉ s.owner
  ofModule : s.relation = .ofModule →
    IsModuleSeparator sep ∧ s.owner ≠ [] ∧ s.name ≠ [] ∧ '#' ∉ s.owner ++ sep ++ s.name ∧
      Undivided s.name

/-- Without an owner, a separator in front of the name is all that is lost. -/
theorem divides_function {sep name : List Char} (within : ∀ c ∈ sep ++ name, endsHead c = false)
    (separator : sep = [] ∨ sep = ['#'] ∨ IsModuleSeparator sep) :
    Divides ⟨[], .function, name, []⟩ (sep ++ name) sep where
  eq_append := by simp
  head := within
  args := by simp
  separator := separator
  owner_eq_nil_iff := by simp
  ofInstance := by simp
  ofModule := by simp

theorem Divides.withArgs {s : Signature} {head sep args : List Char} (h : Divides s head sep)
    (none : s.args = []) (begins : ∀ c ∈ args.head?, endsHead c = true) :
    Divides { s with args := args } (head ++ args) sep :=
  { h with
    eq_append := by rw [h.eq_append, none, List.append_nil]
    args := begins }

theorem exists_divides_attach {relation : Relation} {owner name head sep : List Char}
    (within : ∀ c ∈ head, endsHead c = false) (cut : head = owner ++ sep ++ name)
    (separator : sep = [] ∨ sep = ['#'] ∨ IsModuleSeparator sep)
    (full : owner ≠ [] → name ≠ [] → Divides ⟨owner, relation, name, []⟩ head sep) :
    ∃ sep', Divides ⟨(attach relation owner name head).1, (attach relation owner name head).2.1,
      (attach relation owner name head).2.2, []⟩ head sep' := by
  unfold attach
  split
  · next noOwner =>
      subst noOwner cut
      exact ⟨sep, divides_function within separator⟩
  · next hasOwner =>
      split
      · exact ⟨[], divides_function within (.inl rfl)⟩
      · next hasName => exact ⟨sep, full hasOwner hasName⟩

theorem exists_divides_splitOwner {head : List Char} (within : ∀ c ∈ head, endsHead c = false) :
    ∃ sep, Divides ⟨(splitOwner head).1, (splitOwner head).2.1, (splitOwner head).2.2, []⟩
      head sep := by
  unfold splitOwner
  split
  · next owner name h =>
      obtain ⟨cut, first⟩ := Text.splitFirst_singleton_eq_some_iff.mp h
      have cut' : head = owner ++ ['#'] ++ name := by simpa using cut
      refine exists_divides_attach within cut' (.inr (.inl rfl)) fun hasOwner hasName => ?_
      exact ⟨by simpa using cut', cut' ▸ within, by simp, .inr (.inl rfl), by simp [hasOwner],
        fun _ => ⟨rfl, hasOwner, hasName, first⟩, by simp⟩
  · next h =>
      have noHash := Text.splitFirst_singleton_eq_none_iff.mp h
      split
      · next owner name hm =>
          obtain ⟨sep, module, cut, last⟩ := exists_of_splitModule hm
          refine exists_divides_attach within cut (.inr (.inr module)) fun hasOwner hasName => ?_
          exact ⟨by simpa using cut, cut ▸ within, by simp, .inr (.inr module), by simp [hasOwner],
            by simp, fun _ => ⟨module, hasOwner, hasName, cut ▸ noHash, last⟩⟩
      · exact ⟨[], divides_function within (.inl rfl)⟩

/-! ### Head and arguments -/

theorem parse_trim (d : List Char) : parse (Text.trim d) = parse d := by
  unfold parse
  rw [Text.trim_trim]

/-- The arguments begin where the head ends. -/
theorem parse_append {head args : List Char} (within : ∀ c ∈ head, endsHead c = false)
    (begins : ∀ c ∈ args.head?, endsHead c = true)
    (trimmed : Text.trim (head ++ args) = head ++ args) : parse (head ++ args) =
      ⟨(splitOwner head).1, (splitOwner head).2.1, (splitOwner head).2.2, args⟩ := by
  have inside : ∀ c ∈ head, (!endsHead c) = true := fun c hc => by rw [within c hc]; rfl
  have outside : ∀ c ∈ args.head?, (!endsHead c) = false := fun c hc => by rw [begins c hc]; rfl
  have behind : args.takeWhile (fun c => !endsHead c) = [] := by
    cases args with
    | nil => rfl
    | cons c rest => simp [outside c rfl]
  unfold parse
  rw [trimmed]
  simp only [List.takeWhile_append_of_pos inside, List.dropWhile_append_of_pos inside, behind,
    Text.dropWhile_eq_self outside, List.append_nil]

theorem exists_trim_eq_append (d : List Char) : ∃ head args, Text.trim d = head ++ args ∧
    (∀ c ∈ head, endsHead c = false) ∧ ∀ c ∈ args.head?, endsHead c = true := by
  refine ⟨(Text.trim d).takeWhile fun c => !endsHead c,
    (Text.trim d).dropWhile fun c => !endsHead c, List.takeWhile_append_dropWhile.symm, ?_, ?_⟩
  · intro c hc
    simpa using List.mem_takeWhile_imp hc
  · intro c hc
    simpa using Text.head?_dropWhile (fun c => !endsHead c) (Text.trim d) c hc

theorem exists_divides (d : List Char) : ∃ sep, (parse d).Divides (Text.trim d) sep := by
  obtain ⟨head, args, text, within, begins⟩ := exists_trim_eq_append d
  obtain ⟨sep, division⟩ := exists_divides_splitOwner within
  have trimmed : Text.trim (head ++ args) = head ++ args := by rw [← text, Text.trim_trim]
  have parts := parse_append within begins trimmed
  rw [← text, parse_trim] at parts
  rw [text, parts]
  exact ⟨sep, division.withArgs rfl begins⟩

/-- Other arguments behind the same head. -/
theorem parse_withArgs {d sep args : List Char} (h : (parse d).Divides (Text.trim d) sep)
    (begins : ∀ c ∈ args.head?, endsHead c = true)
    (trimmed : Text.trim ((parse d).owner ++ sep ++ (parse d).name ++ args) =
      (parse d).owner ++ sep ++ (parse d).name ++ args) :
    parse ((parse d).owner ++ sep ++ (parse d).name ++ args) = { parse d with args := args } := by
  have text := h.eq_append
  have before := parse_append h.head h.args (by rw [← text, Text.trim_trim])
  rw [← text, parse_trim] at before
  rw [parse_append h.head begins trimmed]
  exact congrArg (fun s : Signature => { s with args := args }) before.symm

/-- **Nothing is lost.**  A descriptor, blanks around it aside, is made up of the parts of its
signature with a separator between owner and name.  The parts are cut as the relation asks.  Owner,
relation and name do not depend on the arguments: with other arguments behind them they are found
again. -/
theorem exists_divides_parse (d : List Char) : ∃ sep, (parse d).Divides (Text.trim d) sep ∧
    ∀ args, (∀ c ∈ args.head?, endsHead c = true) →
      Text.trim ((parse d).owner ++ sep ++ (parse d).name ++ args) =
        (parse d).owner ++ sep ++ (parse d).name ++ args →
      parse ((parse d).owner ++ sep ++ (parse d).name ++ args) = { parse d with args := args } := by
  obtain ⟨sep, division⟩ := exists_divides d
  exact ⟨sep, division, fun _ begins trimmed => parse_withArgs division begins trimmed⟩

/-- Separators that overlap, and separators in the arguments. -/
theorem divides_parse_overlapping :
    (parse " A.B:::c(x#y, z.w) ".toList).Divides "A.B:::c(x#y, z.w)".toList [':', ':'] ∧
    (∀ c ∈ "{ |k::v| }".toList.head?, endsHead c = true) ∧
    parse "A.B:::c{ |k::v| }".toList =
      ⟨"A.B:".toList, .ofModule, ['c'], "{ |k::v| }".toList⟩ := by
  have parts : parse " A.B:::c(x#y, z.w) ".toList =
      ⟨"A.B:".toList, .ofModule, ['c'], "(x#y, z.w)".toList⟩ := by decide +kernel
  have begins : ∀ c ∈ "{ |k::v| }".toList.head?, endsHead c = true := by
    intro c hc
    obtain rfl : '{' = c := Option.some.inj hc
    decide
  obtain ⟨sep, division, exchange⟩ := exists_divides_parse " A.B:::c(x#y, z.w) ".toList
  have text : Text.trim " A.B:::c(x#y, z.w) ".toList = "A.B:::c(x#y, z.w)".toList := by
    decide +kernel
  rw [text] at division
  obtain rfl : sep = [':', ':'] := by
    rcases (division.ofModule (by rw [parts])).1 with rfl | rfl
    · have e := division.eq_append
      rw [parts] at e
      exact absurd e (by decide)
    · rfl
  have other := exchange "{ |k::v| }".toList begins
  rw [parts] at other
  exact ⟨division, begins, other (by decide +kernel)⟩

end ManualPages.Signature
