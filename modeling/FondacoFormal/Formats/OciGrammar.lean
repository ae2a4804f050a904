import FondacoFormal.Formats.Oci
import Mathlib.Computability.Language

/-!
# The grammar of repository names

`validRepoSegment` scans a segment with one bit of memory, and after a separator it refuses
nothing but a dot.
-/

namespace FondacoFormal.Formats.Oci

open scoped Computability

/-! ## Segments -/

def isWord (c : Char) : Bool :=
  c.isLower || c.isDigit

/-- The characters of a segment. -/
def isRepoChar (c : Char) : Bool :=
  isWord c || c = '.' || c = '_' || c = '-'

/-- `[a-z0-9]+`. -/
def words : Language Char :=
  {s | s ≠ [] ∧ ∀ c ∈ s, isWord c = true}

/-- `[._]|__|-+`. -/
def separators : Language Char :=
  {s | s = ['.'] ∨ s = ['_'] ∨ s = ['_', '_'] ∨ s ≠ [] ∧ ∀ c ∈ s, c = '-'}

/-- `[a-z0-9]+(([._]|__|-+)[a-z0-9]+)*`. -/
def segments : Language Char :=
  words * (separators * words)∗

/-- What stands between the characters of words are separators, and none is at the beginning. -/
def Regular (s : List Char) : Prop :=
  (s.splitOnP isWord).head? = some [] ∧ ∀ run ∈ s.splitOnP isWord, run = [] ∨ run ∈ separators

/-- No dot stands at the start or after a separator. -/
def DotsApart (s : List Char) : Prop :=
  s.head? ≠ some '.' ∧ s.IsChain fun before c => c = '.' → isWord before = true

/-- What may follow a character of a word. -/
inductive Continues : List Char → Prop where
  | done : Continues []
  | word {c : Char} {s : List Char} (hc : isWord c = true) (rest : Continues s) : Continues (c :: s)
  | separated {run : List Char} {c : Char} {s : List Char} (hrun : run ∈ separators)
      (hc : isWord c = true) (rest : Continues s) : Continues (run ++ c :: s)

section

variable {s run : List Char} {c : Char}

theorem Continues.append {word : List Char} (hword : ∀ c ∈ word, isWord c = true)
    (rest : Continues s) : Continues (word ++ s) := by
  induction word with
  | nil => exact rest
  | cons c word ih =>
    obtain ⟨hc, hword⟩ := List.forall_mem_cons.1 hword
    exact .word hc (ih hword)

theorem mem_segments :
    s ∈ segments ↔ ∃ c rest, s = c :: rest ∧ isWord c = true ∧ Continues rest := by
  constructor
  · rintro ⟨first, ⟨hne, hfirst⟩, -, ⟨blocks, rfl, hblocks⟩, rfl⟩
    obtain ⟨c, word, rfl⟩ := List.exists_cons_of_ne_nil hne
    obtain ⟨hc, hword⟩ := List.forall_mem_cons.1 hfirst
    refine ⟨c, word ++ blocks.flatten, rfl, hc, .append hword ?_⟩
    induction blocks with
    | nil => exact .done
    | cons block blocks ih =>
      obtain ⟨⟨run, hrun, next, ⟨hnext, hchars⟩, rfl⟩, hothers⟩ := List.forall_mem_cons.1 hblocks
      obtain ⟨d, more, rfl⟩ := List.exists_cons_of_ne_nil hnext
      obtain ⟨hd, hmore⟩ := List.forall_mem_cons.1 hchars
      have hrest : Continues (run ++ d :: (more ++ blocks.flatten)) :=
        .separated hrun hd (.append hmore (ih hothers))
      simpa using hrest
  · rintro ⟨c, rest, rfl, hc, continues⟩
    induction continues generalizing c with
    | done => exact ⟨[c], ⟨by simp, by simpa⟩, [], Language.nil_mem_kstar _, rfl⟩
    | word hd rest ih =>
      obtain ⟨first, ⟨hne, hfirst⟩, blocks, hblocks, heq⟩ := ih _ hd
      refine ⟨c :: first, ⟨List.cons_ne_nil c first, List.forall_mem_cons.2 ⟨hc, hfirst⟩⟩, blocks,
        hblocks, ?_⟩
      exact congrArg (c :: ·) heq
    | @separated run d s hrun hd rest ih =>
      obtain ⟨first, hfirst, -, ⟨blocks, rfl, hblocks⟩, heq⟩ := ih _ hd
      refine ⟨[c], ⟨by simp, by simpa⟩, _, ⟨(run ++ first) :: blocks, rfl, ?_⟩, ?_⟩
      · exact List.forall_mem_cons.2 ⟨⟨run, hrun, first, hfirst, rfl⟩, hblocks⟩
      · rw [← heq]
        simp

theorem repoChar_word (hc : isWord c = true) (previous : Bool) :
    repoChar (some previous) c = some false :=
  if_pos hc

theorem repoChar_other (hc : isWord c = false) (previous : Option Bool) :
    repoChar previous c ≠ some false := by
  rw [isWord] at hc
  cases previous with
  | none => simp [repoChar]
  | some previous =>
    simp only [repoChar, hc, Bool.false_eq_true, if_false]
    split <;> (try split) <;> simp

theorem foldl_repoChar_none (s : List Char) : s.foldl repoChar none = none := by
  induction s with
  | nil => rfl
  | cons c s ih => exact ih

theorem repoChar_eq (before c : Char) : repoChar (some (!isWord before)) c =
    if isRepoChar c = true ∧ (c = '.' → isWord before = true) then some (!isWord c) else none := by
  unfold repoChar isRepoChar
  change (if isWord c = true then _ else _) = _
  by_cases hword : isWord c = true
  · have hdot : c ≠ '.' := by
      rintro rfl
      cases hword
    simp [hword, hdot]
  · by_cases hdot : c = '.'
    · subst hdot
      by_cases hbefore : isWord before = true <;> simp [hbefore, show isWord '.' = false from rfl]
    · by_cases hother : c = '_' ∨ c = '-'
      · rcases hother with rfl | rfl <;> simp [hword]
      · simp [hword, hdot, hother]

theorem foldl_repoChar_iff (before : Char) (s : List Char) :
    s.foldl repoChar (some (!isWord before)) = some false ↔
      (∀ c ∈ s, isRepoChar c = true) ∧
      (before :: s).IsChain (fun before c => c = '.' → isWord before = true) ∧
      ∃ c ∈ (before :: s).getLast?, isWord c = true := by
  induction s generalizing before with
  | nil => simp
  | cons c s ih =>
    rw [List.foldl_cons, repoChar_eq, List.isChain_cons_cons, List.forall_mem_cons,
      List.getLast?_cons_cons]
    split
    · rename_i hstep
      rw [ih]
      tauto
    · rename_i hstep
      rw [foldl_repoChar_none]
      tauto

theorem validRepoSegment_iff : validRepoSegment s = true ↔
    (∀ c ∈ s, isRepoChar c = true) ∧ DotsApart s ∧ ∃ c ∈ s.getLast?, isWord c = true := by
  have hscan := foldl_repoChar_iff '-' s
  rw [validRepoSegment, Bool.and_eq_true, decide_eq_true_eq, decide_eq_true_eq]
  cases s with
  | nil => simp
  | cons c s =>
    rw [List.getLast?_cons_cons, List.isChain_cons_cons] at hscan
    refine (and_iff_right (List.cons_ne_nil c s)).trans (hscan.trans ?_)
    simp [DotsApart, show isWord '-' = false from rfl]

theorem separators_scan (hrun : run ∈ separators) :
    (∀ c ∈ run, isWord c = false) ∧ run.foldl repoChar (some false) = some true := by
  rcases hrun with rfl | rfl | rfl | ⟨hne, hdashes⟩
  · exact ⟨List.forall_mem_singleton.2 rfl, rfl⟩
  · exact ⟨List.forall_mem_singleton.2 rfl, rfl⟩
  · exact ⟨List.forall_mem_cons.2 ⟨rfl, List.forall_mem_singleton.2 rfl⟩, rfl⟩
  · refine ⟨fun c hc => by rw [hdashes c hc]; rfl, ?_⟩
    obtain ⟨c, dashes, rfl⟩ := List.exists_cons_of_ne_nil hne
    obtain ⟨rfl, hmore⟩ := List.forall_mem_cons.1 hdashes
    refine List.foldlRecOn dashes repoChar (motive := (· = some true)) rfl ?_
    rintro _ rfl c hc
    rw [hmore c hc]
    rfl

/-- What was scanned since the last character of a word goes along. -/
theorem continues_of_scan (hrun : ∀ c ∈ run, isWord c = false)
    (hscan : (run ++ s).foldl repoChar (some false) = some false)
    (hruns : ∀ part ∈ (run ++ s).splitOnP isWord, part = [] ∨ part ∈ separators) :
    Continues (run ++ s) := by
  induction s generalizing run with
  | nil =>
    rcases List.eq_nil_or_concat run with rfl | ⟨front, c, rfl⟩
    · exact .done
    · rw [List.append_nil, List.concat_eq_append, List.foldl_concat] at hscan
      exact absurd hscan (repoChar_other (hrun c (by simp)) _)
  | cons c s ih =>
    by_cases hc : isWord c = true
    · rw [List.splitOnP_append_cons_of_forall_mem hrun c hc] at hruns
      obtain ⟨hpart, hruns⟩ := List.forall_mem_cons.1 hruns
      have hrest : s.foldl repoChar (some false) = some false := by
        rw [List.foldl_append, List.foldl_cons] at hscan
        cases hstate : run.foldl repoChar (some false) with
        | none =>
          rw [hstate] at hscan
          cases (foldl_repoChar_none s).symm.trans hscan
        | some previous => rwa [hstate, repoChar_word hc] at hscan
      have rest : Continues ([] ++ s) := ih (fun _ hmem => absurd hmem List.not_mem_nil) hrest hruns
      rcases hpart with rfl | hpart
      · exact .word hc rest
      · exact .separated hpart hc rest
    · have hmore := @ih (run ++ [c])
      rw [List.append_assoc] at hmore
      refine hmore ?_ hscan hruns
      exact List.forall_mem_append.2 ⟨hrun, List.forall_mem_singleton.2 (Bool.eq_false_iff.2 hc)⟩

theorem continues_iff : Continues s ↔ s.foldl repoChar (some false) = some false ∧
    ∀ run ∈ s.splitOnP isWord, run = [] ∨ run ∈ separators := by
  constructor
  · intro continues
    induction continues with
    | done => simp
    | word hc rest ih =>
      rw [List.foldl_cons, repoChar_word hc, List.splitOnP_cons_eq_if_modifyHead, if_pos hc]
      exact ⟨ih.1, List.forall_mem_cons.2 ⟨.inl rfl, ih.2⟩⟩
    | @separated run c s hrun hc rest ih =>
      obtain ⟨hnone, hscan⟩ := separators_scan hrun
      rw [List.foldl_append, hscan, List.foldl_cons, repoChar_word hc,
        List.splitOnP_append_cons_of_forall_mem hnone c hc]
      exact ⟨ih.1, List.forall_mem_cons.2 ⟨.inr hrun, ih.2⟩⟩
  · rintro ⟨hscan, hruns⟩
    exact @continues_of_scan s [] (fun _ hmem => absurd hmem List.not_mem_nil) hscan hruns

theorem mem_segments_iff : s ∈ segments ↔ validRepoSegment s = true ∧ Regular s := by
  rw [mem_segments, validRepoSegment, Regular]
  cases s with
  | nil => simp
  | cons c s =>
    by_cases hc : isWord c = true
    · simp [hc, continues_iff, repoChar_word hc, List.splitOnP_cons_eq_if_modifyHead]
    · obtain ⟨run, runs, hruns⟩ := List.exists_cons_of_ne_nil (List.splitOnP_ne_nil isWord s)
      simp [hc, List.splitOnP_cons_eq_if_modifyHead, hruns]

/-- The scanner and the grammar agree exactly on the segments that are empty, hold a character
of no segment, end in a separator, have a dot out of place, or are regular. -/
theorem validRepoSegment_grammar_iff :
    (validRepoSegment s = true ↔ s ∈ segments) ↔
      s = [] ∨ (∃ c ∈ s, isRepoChar c = false) ∨ (∃ c ∈ s.getLast?, isWord c = false) ∨
        ¬ DotsApart s ∨ Regular s := by
  have hends : (∃ c ∈ s.getLast?, isWord c = true) ↔
      ¬ (s = [] ∨ ∃ c ∈ s.getLast?, isWord c = false) := by
    rcases List.eq_nil_or_concat s with rfl | ⟨front, c, rfl⟩ <;> simp
  rw [mem_segments_iff, validRepoSegment_iff, hends]
  have hchars : (∃ c ∈ s, isRepoChar c = false) ↔ ¬ ∀ c ∈ s, isRepoChar c = true := by simp
  rw [hchars]
  grind

end

/-- A segment may begin with a dash. -/
theorem dash_first_valid : validRepoSegment "-a".toList = true ∧ "-a".toList ∉ segments := by
  refine ⟨by decide, fun hmem => ?_⟩
  obtain ⟨c, rest, heq, hc, -⟩ := mem_segments.1 hmem
  cases heq
  exact absurd hc (by decide)

end FondacoFormal.Formats.Oci
