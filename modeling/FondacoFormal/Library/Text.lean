import Mathlib.Algebra.Group.Nat.Defs
import Mathlib.Data.List.Infix

/-!
# Texts

Functions on texts in the manner of Go's `strings` package: cutting at a
separator, splitting, and taking a known start or end away.
-/

namespace FondacoFormal.Library.Text

/-- `strings.HasPrefix`. -/
def hasPrefix (s start : String) : Bool :=
  start.toList.isPrefixOf s.toList

/-- `strings.HasSuffix`. -/
def hasSuffix (s tail : String) : Bool :=
  tail.toList.isSuffixOf s.toList

/-- `strings.TrimPrefix`. -/
def trimPrefix (s start : String) : String :=
  if hasPrefix s start then String.ofList (s.toList.drop start.toList.length) else s

/-- `strings.TrimSuffix`. -/
def trimSuffix (s tail : String) : String :=
  if hasSuffix s tail then
    String.ofList (s.toList.take (s.toList.length - tail.toList.length))
  else s

/-- `strings.Trim` with one character. -/
def trim (s : String) (c : Char) : String :=
  String.ofList ((s.toList.dropWhile (· = c)).reverse.dropWhile (· = c)).reverse

/-- `strings.Contains`. -/
def contains (s part : String) : Bool :=
  s.toList.tails.any fun tail => part.toList.isPrefixOf tail

def holds (s : String) (c : Char) : Bool :=
  s.toList.contains c

/-- `strings.Split` at one character. -/
def split (s : String) (separator : Char) : List String :=
  (s.toList.splitOn separator).map String.ofList

/-- `strings.Join`. -/
def join (parts : List String) (separator : String) : String :=
  String.ofList (separator.toList.intercalate (parts.map String.toList))

/-- `unicode.IsSpace`. -/
def isSpace (c : Char) : Bool :=
  (9 ≤ c.toNat && c.toNat ≤ 13) || (0x2000 ≤ c.toNat && c.toNat ≤ 0x200A) ||
    [0x20, 0x85, 0xA0, 0x1680, 0x2028, 0x2029, 0x202F, 0x205F, 0x3000].contains c.toNat

/-- `strings.TrimSpace`. -/
def trimSpace (s : String) : String :=
  String.ofList ((s.toList.dropWhile isSpace).reverse.dropWhile isSpace).reverse

/-- `strings.Fields`. -/
def fields (s : String) : List String :=
  ((s.toList.splitOnP isSpace).filter (· ≠ [])).map String.ofList

/-- `strings.ToLower` on the letters of ASCII; it leaves others as they are. -/
def lower (s : String) : String :=
  String.ofList (s.toList.map Char.toLower)

def cutChars (separator : Char) : List Char → Option (List Char × List Char)
  | [] => none
  | c :: rest =>
    if c = separator then some ([], rest)
    else (cutChars separator rest).map fun parts => (c :: parts.1, parts.2)

/-- `strings.Cut` at one character. -/
def cut (s : String) (separator : Char) : Option (String × String) :=
  (cutChars separator s.toList).map fun parts => (String.ofList parts.1, String.ofList parts.2)

def lastCut (s : String) (separator : Char) : Option (String × String) :=
  (cutChars separator s.toList.reverse).map fun parts =>
    (String.ofList parts.2.reverse, String.ofList parts.1.reverse)

/-- The characters before and after the first occurrence of a text: `strings.Index`. -/
def breakAt (part : List Char) : List Char → Option (List Char × List Char)
  | [] => if part = [] then some ([], []) else none
  | c :: rest =>
    if part.isPrefixOf (c :: rest) then some ([], (c :: rest).drop part.length)
    else (breakAt part rest).map fun parts => (c :: parts.1, parts.2)

def encode (s : List Char) : List UInt8 :=
  s.flatMap String.utf8EncodeChar

/-- The text of some bytes; a byte that starts no character reads as the replacement
character. -/
def decodeFrom : Nat → List UInt8 → List Char
  | 0, _ => []
  | _, [] => []
  | fuel + 1, b :: rest =>
    match ByteArray.utf8DecodeChar? (b :: rest).toByteArray 0 with
    | some c => c :: decodeFrom fuel ((b :: rest).drop c.utf8Size)
    | none => Char.ofNat 65533 :: decodeFrom fuel rest

def decode (bytes : List UInt8) : List Char :=
  decodeFrom bytes.length bytes

/-! ## Starts and ends -/

@[simp] theorem hasPrefix_append (start s : String) : hasPrefix (start ++ s) start = true := by
  simp [hasPrefix]

@[simp] theorem hasSuffix_append (s tail : String) : hasSuffix (s ++ tail) tail = true := by
  simp [hasSuffix]

variable {s : String}

theorem hasPrefix_iff {start : String} : hasPrefix s start = true ↔ ∃ rest, s = start ++ rest := by
  constructor
  · intro h
    obtain ⟨rest, hrest⟩ := List.isPrefixOf_iff_prefix.mp h
    refine ⟨String.ofList rest, ?_⟩
    rw [← String.toList_inj, String.toList_append, String.toList_ofList, hrest]
  · rintro ⟨rest, rfl⟩
    exact hasPrefix_append start rest

variable {a b : String}

theorem hasPrefix_append_of_not (hab : hasPrefix a b = false) (hba : hasPrefix b a = false)
    (s : String) : hasPrefix (a ++ s) b = false := by
  rw [Bool.eq_false_iff]
  intro h
  have hb := List.isPrefixOf_iff_prefix.mp h
  rw [String.toList_append] at hb
  rcases List.prefix_or_prefix_of_prefix hb (List.prefix_append a.toList s.toList) with hle | hle
  · exact Bool.eq_false_iff.mp hab (List.isPrefixOf_iff_prefix.mpr hle)
  · exact Bool.eq_false_iff.mp hba (List.isPrefixOf_iff_prefix.mpr hle)

theorem ne_of_not_hasPrefix (hab : hasPrefix b a = false) (s : String) : a ++ s ≠ b := by
  rintro rfl
  rw [hasPrefix_append] at hab
  exact absurd hab (by decide)

@[simp] theorem trimPrefix_append (start s : String) : trimPrefix (start ++ s) start = s := by
  simp [trimPrefix]

@[simp] theorem trimSuffix_append (s tail : String) : trimSuffix (s ++ tail) tail = s := by
  simp [trimSuffix]

theorem trimSuffix_of_not {tail : String} (h : hasSuffix s tail = false) :
    trimSuffix s tail = s := by
  simp [trimSuffix, h]

/-! ## Cutting -/

variable {separator : Char} {before after : List Char}

theorem eq_of_drop_takeWhile {s : List Char} {c : Char}
    (hrest : s.drop (s.takeWhile fun c => c ≠ separator).length = c :: after) :
    s = s.takeWhile (fun c => c ≠ separator) ++ separator :: after := by
  have hsplit := List.takeWhile_append_dropWhile (p := fun c => c ≠ separator) (l := s)
  have hdrop : s.drop (s.takeWhile fun c => c ≠ separator).length =
      s.dropWhile fun c => c ≠ separator := by
    conv_lhs => arg 2; rw [← hsplit]
    exact List.drop_left
  rw [hdrop] at hrest
  have hhead := List.head?_dropWhile_not (fun c => c ≠ separator) s
  rw [hrest] at hhead
  have hc : c = separator := by simpa using hhead
  rw [hrest, hc] at hsplit
  exact hsplit.symm

theorem cutChars_append (h : separator ∉ before) :
    cutChars separator (before ++ separator :: after) = some (before, after) := by
  induction before with
  | nil => simp [cutChars]
  | cons c rest ih =>
    simp only [List.mem_cons, not_or] at h
    simp [cutChars, Ne.symm h.1, ih h.2]

theorem cutChars_eq_none {s : List Char} : cutChars separator s = none ↔ separator ∉ s := by
  induction s with
  | nil => simp [cutChars]
  | cons c rest ih =>
    by_cases hc : c = separator
    · simp [cutChars, hc]
    · simp [cutChars, hc, Ne.symm hc, ih]

theorem cutChars_eq_some {s : List Char} :
    cutChars separator s = some (before, after) ↔
      separator ∉ before ∧ s = before ++ separator :: after := by
  constructor
  · intro h
    induction s generalizing before with
    | nil => simp [cutChars] at h
    | cons c rest ih =>
      rw [cutChars] at h
      split at h
      · next hc =>
          cases h
          exact ⟨List.not_mem_nil, by rw [hc]; rfl⟩
      · next hc =>
          obtain ⟨⟨first, second⟩, hrest, heq⟩ := Option.map_eq_some_iff.1 h
          cases heq
          obtain ⟨hfirst, htail⟩ := ih hrest
          refine ⟨?_, by rw [htail]; rfl⟩
          simpa [hfirst] using Ne.symm hc
  · rintro ⟨hbefore, rfl⟩
    exact cutChars_append hbefore

theorem cut_eq_some :
    cut s separator = some (a, b) ↔
      separator ∉ a.toList ∧ s.toList = a.toList ++ separator :: b.toList := by
  rw [cut, Option.map_eq_some_iff]
  constructor
  · rintro ⟨⟨before, after⟩, hcut, heq⟩
    cases heq
    simpa using cutChars_eq_some.1 hcut
  · intro h
    exact ⟨(a.toList, b.toList), cutChars_eq_some.2 h, by simp⟩

theorem lastCut_eq_none : lastCut s separator = none ↔ separator ∉ s.toList := by
  rw [lastCut, Option.map_eq_none_iff, cutChars_eq_none, List.mem_reverse]

theorem lastCut_eq_some :
    lastCut s separator = some (a, b) ↔
      separator ∉ b.toList ∧ s.toList = a.toList ++ separator :: b.toList := by
  rw [lastCut, Option.map_eq_some_iff]
  constructor
  · rintro ⟨⟨before, after⟩, hcut, heq⟩
    cases heq
    obtain ⟨hbefore, hs⟩ := cutChars_eq_some.1 hcut
    refine ⟨by simpa using hbefore, ?_⟩
    simpa using congrArg List.reverse hs
  · rintro ⟨hb, hs⟩
    refine ⟨(b.toList.reverse, a.toList.reverse),
      cutChars_eq_some.2 ⟨by simpa using hb, ?_⟩, by simp⟩
    rw [hs]
    simp

theorem last_segment_unique {a b x y : List Char} (hx : separator ∉ x) (hy : separator ∉ y)
    (heq : a ++ separator :: x = b ++ separator :: y) : a = b ∧ x = y := by
  have hreverse := congrArg (fun l => cutChars separator l.reverse) heq
  simp only [List.reverse_append, List.reverse_cons, List.append_assoc, List.singleton_append]
    at hreverse
  rw [cutChars_append (by simpa using hx), cutChars_append (by simpa using hy)] at hreverse
  obtain ⟨hxy, hab⟩ := Prod.ext_iff.1 (Option.some.inj hreverse)
  exact ⟨List.reverse_injective hab, List.reverse_injective hxy⟩

/-! ## The first occurrence -/

theorem breakAt_eq_some {part s : List Char} (h : breakAt part s = some (before, after)) :
    s = before ++ part ++ after := by
  induction s generalizing before with
  | nil =>
    rw [breakAt] at h
    split at h
    · next hpart =>
        cases h
        rw [hpart]
        rfl
    · cases h
  | cons c rest ih =>
    rw [breakAt] at h
    split at h
    · next hstart =>
        obtain ⟨tail, htail⟩ := List.isPrefixOf_iff_prefix.1 hstart
        cases h
        rw [← htail, List.drop_left, List.nil_append]
    · obtain ⟨⟨first, second⟩, hrest, heq⟩ := Option.map_eq_some_iff.1 h
      cases heq
      rw [ih hrest]
      rfl

theorem breakAt_first (part front back : List Char) :
    ∃ before after, breakAt part (front ++ part ++ back) = some (before, after) ∧
      before.length ≤ front.length := by
  induction front with
  | nil =>
    refine ⟨[], back, ?_, le_rfl⟩
    cases hwhole : part ++ back with
    | nil =>
      obtain ⟨rfl, rfl⟩ := List.append_eq_nil_iff.1 hwhole
      rfl
    | cons c rest =>
      have hstart : part.isPrefixOf (c :: rest) = true :=
        List.isPrefixOf_iff_prefix.2 ⟨back, hwhole⟩
      rw [List.nil_append, hwhole, breakAt, if_pos hstart, ← hwhole, List.drop_left]
  | cons c rest ih =>
    obtain ⟨before, after, hfound, hlength⟩ := ih
    rw [List.cons_append, List.cons_append, breakAt]
    split
    · exact ⟨[], _, rfl, Nat.zero_le _⟩
    · exact ⟨c :: before, after, by rw [hfound]; rfl, Nat.succ_le_succ hlength⟩

/-! ## Splitting -/

theorem split_ne_nil (s : String) (c : Char) : split s c ≠ [] := by
  rw [split, Ne, List.map_eq_nil_iff]
  exact List.splitOn_ne_nil c _

theorem split_append (a b : String) (c : Char) :
    split (a ++ String.singleton c ++ b) c = split a c ++ split b c := by
  rw [split, String.toList_append, String.toList_append, String.toList_singleton,
    List.append_assoc, List.singleton_append, List.splitOn_append_cons_self, List.map_append]
  rfl

theorem split_eq_singleton {c : Char} (h : split a c = [b]) : a = b := by
  obtain ⟨chars, hchars, rfl⟩ := List.map_eq_singleton_iff.mp h
  have hjoin : [c].intercalate (a.toList.splitOn c) = a.toList := List.intercalate_splitOn c
  rw [hchars, List.intercalate_singleton] at hjoin
  rw [hjoin, String.ofList_toList]

/-- Three parts between separators are the parts of a text that splits into three. -/
theorem split_three {c first second third : String} {x : Char}
    (h : split (a ++ String.singleton x ++ (b ++ String.singleton x ++ c)) x =
      [first, second, third]) : a = first ∧ b = second ∧ c = third := by
  rw [split_append, split_append] at h
  obtain ⟨a₀, as, ha⟩ := List.exists_cons_of_ne_nil (split_ne_nil a x)
  obtain ⟨b₀, bs, hb⟩ := List.exists_cons_of_ne_nil (split_ne_nil b x)
  obtain ⟨c₀, cs, hc⟩ := List.exists_cons_of_ne_nil (split_ne_nil c x)
  rw [ha, hb, hc] at h
  have hlength := congrArg List.length h
  simp only [List.length_append, List.length_cons, List.length_nil] at hlength
  obtain rfl : as = [] := List.eq_nil_of_length_eq_zero (by omega)
  obtain rfl : bs = [] := List.eq_nil_of_length_eq_zero (by omega)
  obtain rfl : cs = [] := List.eq_nil_of_length_eq_zero (by omega)
  simp only [List.cons_append, List.nil_append, List.cons.injEq, and_true] at h
  obtain ⟨rfl, rfl, rfl⟩ := h
  exact ⟨split_eq_singleton ha, split_eq_singleton hb, split_eq_singleton hc⟩

/-! ## Bytes -/

theorem encode_cons (c : Char) (rest : List Char) :
    encode (c :: rest) = String.utf8EncodeChar c ++ encode rest :=
  List.flatMap_cons

theorem length_encode_cons (c : Char) (rest : List Char) :
    (encode (c :: rest)).length = c.utf8Size + (encode rest).length := by
  rw [encode_cons, List.length_append, String.length_utf8EncodeChar]

theorem drop_encode_cons (c : Char) (rest : List Char) :
    (encode (c :: rest)).drop c.utf8Size = encode rest := by
  rw [encode_cons, ← String.length_utf8EncodeChar c, List.drop_left]

theorem decodeFrom_encode (s : List Char) (fuel : Nat) (hfuel : (encode s).length ≤ fuel) :
    decodeFrom fuel (encode s) = s := by
  induction s generalizing fuel with
  | nil => cases fuel <;> rfl
  | cons c rest ih =>
    have hsize : 0 < c.utf8Size := Char.utf8Size_pos c
    have hlength := length_encode_cons c rest
    have hdrop := drop_encode_cons c rest
    have hfirst : ByteArray.utf8DecodeChar? (encode (c :: rest)).toByteArray 0 = some c := by
      rw [encode_cons, List.toByteArray_append]
      exact ByteArray.utf8DecodeChar?_utf8EncodeChar_append
    obtain ⟨fuel, rfl⟩ := Nat.exists_eq_add_one_of_ne_zero (show fuel ≠ 0 by omega)
    cases hbytes : encode (c :: rest) with
    | nil =>
      rw [hbytes, List.length_nil] at hlength
      omega
    | cons b more =>
      rw [hbytes] at hfirst hdrop
      rw [decodeFrom, hfirst]
      dsimp only
      rw [hdrop, ih fuel (by omega)]

@[simp] theorem decode_encode (s : List Char) : decode (encode s) = s :=
  decodeFrom_encode s _ le_rfl

/-! ## Decimal numbers -/

theorem le_ofDigitChars (l : List Char) (n : Nat) : n ≤ Nat.ofDigitChars 10 l n := by
  induction l generalizing n with
  | nil => exact Nat.le_refl n
  | cons c l ih =>
    rw [Nat.ofDigitChars_cons]
    exact Nat.le_trans (by omega) (ih _)

theorem foldl_wrapped {l : List Char} (hdigits : ∀ c ∈ l, c.isDigit = true) {n : Nat}
    (hfit : Nat.ofDigitChars 10 l n < 2 ^ 63) :
    l.foldl (fun m c => (m * 10 + (c.toNat - 48 : Int)).bmod (2 ^ 64)) (n : Int) =
      Nat.ofDigitChars 10 l n := by
  induction l generalizing n with
  | nil => rfl
  | cons c l ih =>
    have hc : 48 ≤ c.toNat := (Char.isDigit_iff_toNat.mp (hdigits c List.mem_cons_self)).1
    rw [Nat.ofDigitChars_cons] at hfit ⊢
    have hstep : ((n : Int) * 10 + (c.toNat - 48 : Int)).bmod (2 ^ 64) =
        ((10 * n + (c.toNat - '0'.toNat) : Nat) : Int) := by
      have hle := le_ofDigitChars l (10 * n + (c.toNat - '0'.toNat))
      have hzero : '0'.toNat = 48 := rfl
      rw [Int.bmod_eq_of_le] <;> omega
    rw [List.foldl_cons, hstep]
    exact ih (fun d hd => hdigits d (List.mem_cons_of_mem _ hd)) hfit

end FondacoFormal.Library.Text
