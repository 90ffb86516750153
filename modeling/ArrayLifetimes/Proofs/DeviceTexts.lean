/-
The texts of devices.

`Device.Written` lists the texts that are read as a device, once the white space around them is
cut off and their ASCII letters are lowered.  A reader looks for the first opening parenthesis and
for a closing one at the very end, and takes what is between them, so there may be anything in
between; but an index is made of digits, which leaves no room for further parentheses.

The reader takes characters.  `sliced?` takes bytes, as they lie in memory: it has the positions of
the two parentheses and cuts there, and a cut can go wrong.  It never does, because both
parentheses take up one byte each and the closing one comes after the opening one.
-/
import ArrayLifetimes.Fault.Manager
import ArrayLifetimes.Machine.Agenda
import ArrayLifetimes.Text.Cut

namespace ArrayLifetimes

/-! ### White space -/

namespace Text

variable {c : Char} {cs before after : List Char}

/-- White space has no letters. -/
theorem toLower_of_isBlank (h : isBlank c = true) : c.toLower = c := by
  unfold Char.toLower
  rw [dif_neg]
  intro hletter
  have hlow : 65 ≤ c.toNat := UInt32.le_iff_toNat_le.mp hletter.1
  have hhigh : c.toNat ≤ 90 := UInt32.le_iff_toNat_le.mp hletter.2
  simp only [isBlank, blankRanges, List.any_cons, List.any_nil, Bool.or_eq_true, Bool.and_eq_true,
    decide_eq_true_eq, Bool.false_eq_true, or_false] at h
  omega

theorem trimStart_append (hb : ∀ c ∈ before, isBlank c = true) :
    trimStart (before ++ cs) = trimStart cs :=
  List.dropWhile_append_of_pos hb

theorem trimStart_of_head (h : ∀ c, cs.head? = some c → isBlank c = false) :
    trimStart cs = cs := by
  cases cs with
  | nil => rfl
  | cons c cs => exact List.dropWhile_cons_of_neg (by rw [h c rfl]; decide)

/-- **The white space around a text is cut off**, and no more. -/
theorem trim_append (hb : ∀ c ∈ before, isBlank c = true) (ha : ∀ c ∈ after, isBlank c = true)
    (hhead : ∀ c, cs.head? = some c → isBlank c = false)
    (hlast : ∀ c, cs.getLast? = some c → isBlank c = false) :
    trim (before ++ cs ++ after) = cs := by
  have hrev : trimStart cs.reverse = cs.reverse := by
    apply trimStart_of_head
    intro c hc
    rw [List.head?_reverse] at hc
    exact hlast c hc
  have hafter : ∀ c ∈ after.reverse, isBlank c = true := by
    intro c hc
    exact ha c (List.mem_reverse.mp hc)
  unfold trim
  rw [List.append_assoc, trimStart_append hb]
  by_cases hempty : cs = []
  · subst hempty
    have hnil : trimStart after = [] := by
      have hall : trimStart (after ++ []) = trimStart [] := trimStart_append ha
      rw [List.append_nil] at hall
      exact hall
    rw [List.nil_append, hnil]
    rfl
  · have hstart : trimStart (cs ++ after) = cs ++ after := by
      apply trimStart_of_head
      intro c hc
      rw [List.head?_append, Option.or_of_isSome (by simpa using hempty)] at hc
      exact hhead c hc
    rw [hstart, List.reverse_append, trimStart_append hafter, hrev, List.reverse_reverse]

/-! ### Cuts at byte positions -/

/-- The characters from one byte position to another.  There are none if the positions are the wrong
way round, past the end, or inside a character. -/
def slice? (cs : List Char) (start stop : Nat) : Option (List Char) :=
  if start ≤ stop ∧ stop ≤ byteLength cs then (cut cs start stop).toOption else none

theorem slice?_append (before part after : List Char) :
    slice? (before ++ part ++ after) (byteLength before) (byteLength (before ++ part)) =
      some part := by
  unfold slice?
  rw [if_pos, cut_append]
  · rfl
  · simp only [byteLength_append]
    omega

end Text

namespace Device

open Text

/-! ### What is read -/

/-- A text as the reader looks at it. -/
def normal (s : String) : List Char := lowered (trim s.toList)

/-- The texts of a device, without white space around them and in lower case. -/
inductive Written : Device → List Char → Prop
  | cpu : Written .cpu "cpu".toList
  | cpuEmpty : Written .cpu "cpu()".toList
  | gpu : Written (.gpu 0) "gpu".toList
  | gpuEmpty : Written (.gpu 0) "gpu()".toList
  /-- With an index, which is a word of 32 bits in decimal digits. -/
  | gpuIndex (sign digits : List Char) (index : UInt32) (hsign : sign = [] ∨ sign = ['+'])
      (hne : digits ≠ []) (hdigits : ∀ c ∈ digits, c.isDigit = true)
      (hindex : Nat.ofDigitChars 10 digits 0 = index.toNat) :
      Written (.gpu index) ("gpu(".toList ++ (sign ++ digits) ++ [')'])

/-- Reads a device, with the error that a caller gets. -/
def read (s : String) : Except ManagerError Device :=
  (parse s).mapError fun fault => .invalidArgument (.device fault)

/-- The reader by byte positions, with no result if a cut goes wrong. -/
def sliced? (cs : List Char) : Option (Except DeviceFault Device) :=
  if '(' ∈ cs then
    let position := byteLength (cs.takeWhile (· ≠ '('))
    if cs.getLast? = some ')' then
      (slice? cs 0 position).bind fun name =>
        (slice? cs (position + 1) (byteLength cs - 1)).map fun argument =>
          ofParts cs name (some argument)
    else some (.error (.malformed (String.ofList cs)))
  else some (ofParts cs cs none)

/-! ### Indices -/

variable {cs name argument digits : List Char} {index : UInt32} {d : Device} {s : String}

theorem foldlM_digits (cs : List Char) (n : Nat) :
    cs.foldlM (fun n c => if c.isDigit then some (10 * n + (c.toNat - '0'.toNat)) else none) n =
      if cs.all Char.isDigit then some (Nat.ofDigitChars 10 cs n) else none := by
  induction cs generalizing n with
  | nil => rfl
  | cons c cs ih =>
      by_cases hc : c.isDigit = true
      · simp only [List.foldlM_cons, hc, if_true, Option.bind_eq_bind, Option.bind_some, ih,
          List.all_cons, Bool.true_and, Nat.ofDigitChars_cons]
      · simp [hc]

theorem digitsValue?_eq (cs : List Char) :
    digitsValue? cs =
      if cs.all Char.isDigit then some (Nat.ofDigitChars 10 cs 0) else none :=
  foldlM_digits cs 0

/-- An index by what comes after its sign. -/
theorem index?_of_digits
    (hdigits : (if cs.head? = some '+' then cs.tail else cs) = digits) :
    index? cs = some index ↔ digits ≠ [] ∧ (∀ c ∈ digits, c.isDigit = true) ∧
      Nat.ofDigitChars 10 digits 0 = index.toNat := by
  unfold index?
  simp only [hdigits, digitsValue?_eq, List.isEmpty_iff]
  by_cases hne : digits = []
  · simp [hne]
  · by_cases hall : digits.all Char.isDigit = true
    · have hlt := index.toNat_lt
      rw [if_neg hne, if_pos hall, Option.bind_some]
      by_cases hword : Nat.ofDigitChars 10 digits 0 < 2 ^ 32
      · rw [if_pos hword, Option.some.injEq, ← UInt32.toNat_inj, UInt32.toNat_ofNat_of_lt' hword]
        exact ⟨fun h => ⟨hne, List.all_eq_true.mp hall, h⟩, fun h => h.2.2⟩
      · rw [if_neg hword]
        constructor
        · intro h
          cases h
        · intro h
          omega
    · rw [if_neg hne, if_neg hall, Option.bind_none]
      constructor
      · intro h
        cases h
      · intro h
        exact absurd (List.all_eq_true.mpr h.2.1) hall

theorem index?_eq_some_iff : index? cs = some index ↔
    ∃ sign digits, cs = sign ++ digits ∧ (sign = [] ∨ sign = ['+']) ∧ digits ≠ [] ∧
      (∀ c ∈ digits, c.isDigit = true) ∧ Nat.ofDigitChars 10 digits 0 = index.toNat := by
  constructor
  · intro h
    by_cases hplus : cs.head? = some '+'
    · rw [index?_of_digits (if_pos hplus)] at h
      obtain ⟨rest, rfl⟩ := List.head?_eq_some_iff.mp hplus
      exact ⟨['+'], rest, rfl, Or.inr rfl, h⟩
    · rw [index?_of_digits (if_neg hplus)] at h
      exact ⟨[], cs, rfl, Or.inl rfl, h⟩
  · intro h
    obtain ⟨sign, digits, rfl, hsign, hdigits⟩ := h
    refine (index?_of_digits ?_).mpr hdigits
    rcases hsign with rfl | rfl
    · -- A digit is no sign.
      rw [List.nil_append, if_neg]
      intro hplus
      have hdigit := hdigits.2.1 '+' (List.mem_of_head? hplus)
      exact absurd hdigit (by decide)
    · rfl

/-! ### Names and arguments -/

theorem ofParts_eq_ok_iff {whole : List Char} {argument : Option (List Char)} :
    ofParts whole name argument = .ok d ↔
      (name = "cpu".toList ∧ (argument = none ∨ argument = some []) ∧ d = .cpu) ∨
      (name = "gpu".toList ∧ (argument = none ∨ argument = some []) ∧ d = .gpu 0) ∨
      ∃ cs index, name = "gpu".toList ∧ argument = some cs ∧ cs ≠ [] ∧ index? cs = some index ∧
        d = .gpu index := by
  have hnames : "gpu".toList ≠ "cpu".toList := by decide
  unfold ofParts
  by_cases hgpu : name = "gpu".toList
  · subst hgpu
    rw [if_neg (fun h => hnames h.1), if_pos rfl]
    cases argument with
    | none => simp [eq_comm]
    | some cs =>
        cases cs with
        | nil => simp [eq_comm]
        | cons c cs =>
            cases hindex : index? (c :: cs) <;> simp [hindex, eq_comm]
  · by_cases hcpu : name = "cpu".toList ∧ (argument = none ∨ argument = some [])
    · rw [if_pos hcpu]
      simp [hcpu, eq_comm]
    · rw [if_neg hcpu, if_neg hgpu]
      constructor
      · intro h
        cases h
      · intro h
        rcases h with ⟨hname, harg, -⟩ | ⟨hname, -⟩ | ⟨-, -, hname, -⟩
        · exact absurd ⟨hname, harg⟩ hcpu
        · exact absurd hname hgpu
        · exact absurd hname hgpu

theorem no_open_of_mem (hopen : '(' ∉ name) : ∀ c ∈ name, decide (c ≠ '(') = true := by
  intro c hc
  apply decide_eq_true
  rintro rfl
  exact hopen hc

theorem takeWhile_of_open {rest : List Char} (hopen : '(' ∉ name) :
    (name ++ '(' :: rest).takeWhile (· ≠ '(') = name := by
  rw [List.takeWhile_append_of_pos (no_open_of_mem hopen), List.takeWhile_cons_of_neg (by decide),
    List.append_nil]

theorem parse_of_plain (hs : '(' ∉ normal s) : parse s = ofParts (normal s) (normal s) none := by
  have hdrop : (lowered (trim s.toList)).dropWhile (· ≠ '(') = [] := by
    have hall : (normal s ++ []).dropWhile (· ≠ '(') = List.dropWhile (· ≠ '(') [] :=
      List.dropWhile_append_of_pos (no_open_of_mem hs)
    rw [List.append_nil] at hall
    exact hall
  simp only [parse, hdrop]
  rfl

theorem parse_of_open {rest : List Char} (hopen : '(' ∉ name)
    (hs : normal s = name ++ '(' :: rest) :
    parse s = if rest.getLast? = some ')' then ofParts (normal s) name (some rest.dropLast)
      else .error (.malformed (String.ofList (normal s))) := by
  have hname : (lowered (trim s.toList)).takeWhile (· ≠ '(') = name := by
    show (normal s).takeWhile (· ≠ '(') = name
    rw [hs]
    exact takeWhile_of_open hopen
  have hdrop : (lowered (trim s.toList)).dropWhile (· ≠ '(') = '(' :: rest := by
    show (normal s).dropWhile (· ≠ '(') = '(' :: rest
    rw [hs, List.dropWhile_append_of_pos (no_open_of_mem hopen),
      List.dropWhile_cons_of_neg (by decide)]
  simp only [parse, hname, hdrop]
  rfl

theorem parse_of_parts (hopen : '(' ∉ name)
    (hs : normal s = name ++ '(' :: (argument ++ [')'])) :
    parse s = ofParts (normal s) name (some argument) := by
  rw [parse_of_open hopen hs, if_pos List.getLast?_concat, List.dropLast_concat]

/-- A text is a bare name, or a name with what stands in its parentheses, or it is malformed. -/
theorem parse_cases (s : String) :
    ('(' ∉ normal s ∧ parse s = ofParts (normal s) (normal s) none) ∨
      (∃ name argument, '(' ∉ name ∧ normal s = name ++ '(' :: (argument ++ [')']) ∧
        parse s = ofParts (normal s) name (some argument)) ∨
      ∃ name rest, '(' ∉ name ∧ normal s = name ++ '(' :: rest ∧ rest.getLast? ≠ some ')' ∧
        parse s = .error (.malformed (String.ofList (normal s))) := by
  by_cases hmem : '(' ∈ normal s
  · obtain ⟨name, rest, hs, hopen⟩ := List.eq_append_cons_of_mem hmem
    by_cases hlast : rest.getLast? = some ')'
    · obtain ⟨argument, rfl⟩ := List.getLast?_eq_some_iff.mp hlast
      exact Or.inr (Or.inl ⟨name, argument, hopen, hs, parse_of_parts hopen hs⟩)
    · have hparse := parse_of_open hopen hs
      rw [if_neg hlast] at hparse
      exact Or.inr (Or.inr ⟨name, rest, hopen, hs, hlast, hparse⟩)
  · exact Or.inl ⟨hmem, parse_of_plain hmem⟩

/-! ### Exactly these texts -/

/-- **What is read as a device is written as one.** -/
theorem written_of_parse (h : parse s = .ok d) : Written d (normal s) := by
  rcases parse_cases s with ⟨-, hp⟩ | ⟨name, argument, -, hs, hp⟩ | ⟨name, rest, -, -, -, hp⟩
  · rw [hp, ofParts_eq_ok_iff] at h
    rcases h with ⟨hname, -, rfl⟩ | ⟨hname, -, rfl⟩ | ⟨cs, index, -, hnone, -⟩
    · rw [hname]
      exact .cpu
    · rw [hname]
      exact .gpu
    · cases hnone
  · rw [hp, ofParts_eq_ok_iff] at h
    rw [hs]
    rcases h with ⟨rfl, hempty, rfl⟩ | ⟨rfl, hempty, rfl⟩ | ⟨cs, index, rfl, hsome, -, hindex, rfl⟩
    · obtain rfl : argument = [] := by simpa using hempty
      exact .cpuEmpty
    · obtain rfl : argument = [] := by simpa using hempty
      exact .gpuEmpty
    · obtain rfl : argument = cs := Option.some.inj hsome
      obtain ⟨sign, digits, rfl, hsign, hne, hdigits, hvalue⟩ := index?_eq_some_iff.mp hindex
      exact .gpuIndex sign digits index hsign hne hdigits hvalue
  · rw [hp] at h
    cases h

/-- **What is written as a device is read as it.** -/
theorem parse_of_written (h : Written d (normal s)) : parse s = .ok d := by
  generalize hs : normal s = cs at h
  cases h with
  | cpu =>
      rw [parse_of_plain (by rw [hs]; decide), hs]
      rfl
  | gpu =>
      rw [parse_of_plain (by rw [hs]; decide), hs]
      rfl
  | cpuEmpty =>
      have hparts : normal s = "cpu".toList ++ '(' :: ([] ++ [')']) := hs
      rw [parse_of_parts (by decide) hparts]
      rfl
  | gpuEmpty =>
      have hparts : normal s = "gpu".toList ++ '(' :: ([] ++ [')']) := hs
      rw [parse_of_parts (by decide) hparts]
      rfl
  | gpuIndex sign digits index hsign hne hdigits hindex =>
      have hparts : normal s = "gpu".toList ++ '(' :: (sign ++ digits ++ [')']) := hs
      have hsome : index? (sign ++ digits) = some index :=
        index?_eq_some_iff.mpr ⟨sign, digits, rfl, hsign, hne, hdigits, hindex⟩
      rw [parse_of_parts (by decide) hparts, ofParts_eq_ok_iff]
      exact Or.inr (Or.inr ⟨_, index, rfl, rfl, List.append_ne_nil_of_right_ne_nil sign hne, hsome,
        rfl⟩)

theorem parse_eq_ok_iff : parse s = .ok d ↔ Written d (normal s) :=
  ⟨written_of_parse, parse_of_written⟩

/-! ### Cuts -/

/-- **The cuts go right**, and give what the reader takes. -/
theorem sliced?_normal (s : String) : sliced? (normal s) = some (parse s) := by
  rcases parse_cases s with
    ⟨hopen, hp⟩ | ⟨name, argument, hopen, hs, hp⟩ | ⟨name, rest, hopen, hs, hlast, hp⟩
  · unfold sliced?
    rw [if_neg hopen, hp]
  · have hmem : '(' ∈ normal s := by
      rw [hs]
      exact List.mem_append_right name (List.mem_cons_self ..)
    have hclose : (normal s).getLast? = some ')' := by
      rw [hs, ← List.cons_append, ← List.append_assoc, List.getLast?_concat]
    have hname : (normal s).takeWhile (· ≠ '(') = name := by
      rw [hs]
      exact takeWhile_of_open hopen
    have hfirst : slice? (normal s) 0 (byteLength name) = some name := by
      have hslice := slice?_append [] name ('(' :: (argument ++ [')']))
      rw [List.nil_append, ← hs] at hslice
      exact hslice
    have hsecond : slice? (normal s) (byteLength name + 1) (byteLength (normal s) - 1) =
        some argument := by
      have hslice := slice?_append (name ++ ['(']) argument [')']
      have htext : name ++ ['('] ++ argument ++ [')'] = normal s := by
        rw [hs]
        simp
      have hstart : byteLength (name ++ ['(']) = byteLength name + 1 := byteLength_append ..
      have hstop : byteLength (name ++ ['('] ++ argument) = byteLength (normal s) - 1 := by
        rw [← htext, byteLength_append _ [')']]
        rfl
      rw [htext, hstart, hstop] at hslice
      exact hslice
    unfold sliced?
    rw [if_pos hmem, if_pos hclose, hname, hfirst, Option.bind_some, hsecond, hp]
    rfl
  · have hmem : '(' ∈ normal s := by
      rw [hs]
      exact List.mem_append_right name (List.mem_cons_self ..)
    have hclose : (normal s).getLast? ≠ some ')' := by
      rw [hs, List.getLast?_append, List.getLast?_cons]
      cases hrest : rest.getLast? with
      | none =>
          show some '(' ≠ some ')'
          decide
      | some c =>
          rw [hrest] at hlast
          exact hlast
    unfold sliced?
    rw [if_pos hmem, if_neg hclose, hp]

/-! ### The text of a device -/

theorem written_text (d : Device) : Written d d.text.toList := by
  cases d with
  | cpu => exact .cpuEmpty
  | gpu index =>
      have htext : (gpu index).text.toList =
          "gpu(".toList ++ ([] ++ Nat.toDigits 10 index.toNat) ++ [')'] := by
        simp [text]
      rw [htext]
      refine .gpuIndex [] _ index (Or.inl rfl) Nat.toDigits_ne_nil ?_ ?_
      · intro c hc
        exact Nat.isDigit_of_mem_toDigits (by decide) (by decide) hc
      · exact Nat.ofDigitChars_toDigits (by decide) (by decide)

/-- What is written as a device begins with a letter and ends in a letter or a parenthesis. -/
theorem Written.ends {cs : List Char} (h : Written d cs) :
    (∀ c, cs.head? = some c → isBlank c = false) ∧
      ∀ c, cs.getLast? = some c → isBlank c = false := by
  have hends : ∀ first last : Char, cs.head? = some first → cs.getLast? = some last →
      isBlank first = false → isBlank last = false →
      (∀ c, cs.head? = some c → isBlank c = false) ∧
        ∀ c, cs.getLast? = some c → isBlank c = false := by
    intro first last hhead hlast hfirst hfinal
    constructor
    · intro c hc
      rw [← Option.some.inj (hhead.symm.trans hc)]
      exact hfirst
    · intro c hc
      rw [← Option.some.inj (hlast.symm.trans hc)]
      exact hfinal
  cases h with
  | cpu => exact hends 'c' 'u' rfl rfl (by decide) (by decide)
  | cpuEmpty => exact hends 'c' ')' rfl rfl (by decide) (by decide)
  | gpu => exact hends 'g' 'u' rfl rfl (by decide) (by decide)
  | gpuEmpty => exact hends 'g' ')' rfl rfl (by decide) (by decide)
  | gpuIndex => exact hends 'g' ')' rfl List.getLast?_concat (by decide) (by decide)

/-- White space around a text and upper case make no difference. -/
theorem normal_of_written {before cs after : List Char} (hb : ∀ c ∈ before, isBlank c = true)
    (ha : ∀ c ∈ after, isBlank c = true) (hw : Written d (lowered cs)) :
    normal (String.ofList (before ++ cs ++ after)) = lowered cs := by
  have hnot : ∀ c, isBlank c.toLower = false → isBlank c = false := by
    intro c hc
    cases hblank : isBlank c with
    | false => rfl
    | true =>
        rw [toLower_of_isBlank hblank, hblank] at hc
        cases hc
  obtain ⟨hhead, hlast⟩ := hw.ends
  unfold normal
  rw [String.toList_ofList, trim_append hb ha]
  · intro c hc
    apply hnot
    apply hhead
    rw [lowered, List.head?_map, hc]
    rfl
  · intro c hc
    apply hnot
    apply hlast
    rw [lowered, List.getLast?_map, hc]
    rfl

/-- **The texts of devices.**  A text is read as a device just when it is one of the texts of the
device, once the white space around it is cut off and its ASCII letters are lowered; all others are
invalid arguments, and the cuts at the parentheses never go wrong.  So the text that a device is
shown with is read as the device, in letters of any case and with white space around it. -/
theorem read_texts :
    (∀ s d, read s = .ok d ↔ Written d (normal s)) ∧
      (∀ s, (∀ d, ¬ Written d (normal s)) →
        ∃ fault, read s = .error (.invalidArgument (.device fault))) ∧
      (∀ s, sliced? (normal s) = some (parse s)) ∧
      ∀ d before cs after, (∀ c ∈ before, isBlank c = true) → (∀ c ∈ after, isBlank c = true) →
        lowered cs = d.text.toList → read (String.ofList (before ++ cs ++ after)) = .ok d := by
  have hread : ∀ s d, read s = .ok d ↔ Written d (normal s) := by
    intro s d
    rw [← parse_eq_ok_iff]
    exact mapError_eq_ok
  refine ⟨hread, ?_, sliced?_normal, ?_⟩
  · intro s hnone
    cases hp : parse s with
    | ok d => exact absurd (written_of_parse hp) (hnone d)
    | error fault =>
        refine ⟨fault, ?_⟩
        unfold read
        rw [hp]
        rfl
  · intro d before cs after hb ha hcs
    have hw : Written d (lowered cs) := by
      rw [hcs]
      exact written_text d
    rw [hread, normal_of_written hb ha hw]
    exact hw

end Device

end ArrayLifetimes
