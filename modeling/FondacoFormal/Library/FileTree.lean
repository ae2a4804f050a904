import FondacoFormal.Library.Fields
import Mathlib.Data.List.Infix
import Mathlib.Data.List.Lex
import Mathlib.Data.List.TakeWhile

/-!
# Trees of files

A tree is the list of its files, in the order of their paths, with the directories that were
made. A path is a list of names.
-/

namespace FondacoFormal.Library.FileTree

inductive Errno where
  /-- `ENOENT`. -/
  | notExist
  /-- `ENOTDIR`. -/
  | notDir
  /-- `EEXIST`. -/
  | exist
  /-- `ENOTEMPTY`. -/
  | notEmpty
  /-- `EINVAL`. -/
  | invalid
  /-- `ENAMETOOLONG`. -/
  | nameTooLong
  deriving DecidableEq, Repr

structure Tree (κ α : Type) where
  files : List (List κ × α) := []
  made : List (List κ) := []

inductive Entry (α : Type) where
  | file (content : α)
  | dir

namespace Tree

variable {κ α : Type} [LinearOrder κ]

/-! ## Operations -/

def content (p : List κ) (t : Tree κ α) : Option α :=
  Fields.find p t.files

def fileAbove (p : List κ) (t : Tree κ α) : Bool :=
  p.inits.any fun q => q ≠ p && (t.content q).isSome

/-- There is a directory at the path: the root, or one with a directory that was made or a file
below. -/
def isDirAt (p : List κ) (t : Tree κ α) : Bool :=
  p = [] || (t.made.any fun q => p <+: q) || t.files.any fun file => p ≠ file.1 && p <+: file.1

/-- The first name of the path that is not there is one that no file can have. -/
def overlong (fits : κ → Bool) (p : List κ) (t : Tree κ α) : Bool :=
  p.inits.any fun q => t.isDirAt q.dropLast && !t.isDirAt q && q.getLast?.any fun name => !fits name

/-- A call on the path, which is followed from directory to directory. -/
def follow {β : Type} (fits : κ → Bool) (p : List κ) (t : Tree κ α) (call : Except Errno β) :
    Except Errno β :=
  if t.fileAbove p then .error .notDir
  else if t.overlong fits p then .error .nameTooLong
  else call

/-- `Stat`. -/
def find (p : List κ) (t : Tree κ α) : Except Errno (Entry α) :=
  match t.content p with
  | some a => .ok (.file a)
  | none => if t.isDirAt p then .ok .dir else .error .notExist

/-- `MkdirAll`: make a directory with all those above it, up to the first that is refused. -/
def mkdirAll (refused : List κ → Option Errno) (p : List κ) (t : Tree κ α) :
    Tree κ α × Option Errno :=
  if p.inits.any fun q => (t.content q).isSome then (t, some .notDir)
  else ({ t with made := t.made ++ p.inits.takeWhile fun q => (refused q).isNone },
    p.inits.findSome? refused)

/-- `Rename` of a file to a path. -/
def place (content : α) (p : List κ) (t : Tree κ α) : Except Errno (Tree κ α) :=
  if t.isDirAt p then .error .exist
  else if t.isDirAt p.dropLast then .ok { t with files := Fields.set p content t.files }
  else .error .notExist

/-- `Remove` of a file or an empty directory; the directory it was in stays. -/
def remove (p : List κ) (t : Tree κ α) : Except Errno (Tree κ α) :=
  if (t.content p).isSome then .ok ⟨Fields.erase p t.files, t.made ++ p.dropLast.inits⟩
  else if !t.isDirAt p then .error .notExist
  else if (t.files.map Prod.fst ++ t.made).any fun q => p ≠ q && p <+: q then .error .notEmpty
  else .ok { t with made := t.made.filter fun q => q ≠ p }

/-- `WalkDir`: the files at a path and below it, in lexical order. -/
def walk (p : List κ) (t : Tree κ α) : List (List κ × α) :=
  t.files.filter fun file => p <+: file.1

/-! ## What is where -/

variable {p q : List κ} {t : Tree κ α} {a : α}

theorem fileAbove_iff :
    t.fileAbove p = true ↔ ∃ q, q <+: p ∧ q ≠ p ∧ (t.content q).isSome := by
  simp [fileAbove]

theorem mem_files (hcontent : t.content p = some a) : (p, a) ∈ t.files :=
  Fields.mem_of_lookup hcontent

theorem isDirAt_of_mem {file : List κ × α} (hmem : file ∈ t.files) (hbelow : p <+: file.1)
    (hne : p ≠ file.1) : t.isDirAt p = true := by
  simp only [isDirAt, Bool.or_eq_true, List.any_eq_true]
  exact .inr ⟨file, hmem, by simp [hne, hbelow]⟩

theorem walk_of_absent (habsent : t.content p = none) (hdir : t.isDirAt p = false) :
    t.walk p = [] := by
  rw [walk, List.filter_eq_nil_iff]
  intro file hmem hbelow
  by_cases heq : p = file.1
  · have hsome : (t.content file.1).isSome = true :=
      Fields.lookup_isSome_iff.2 (List.mem_map_of_mem hmem)
    rw [← heq, habsent] at hsome
    cases hsome
  · rw [isDirAt_of_mem hmem (of_decide_eq_true hbelow) heq] at hdir
    cases hdir

theorem follow_of_clear {β : Type} {fits : κ → Bool} (hclear : t.fileAbove p = false)
    (hshort : t.overlong fits p = false) (call : Except Errno β) : t.follow fits p call = call := by
  rw [follow, hclear, hshort]
  rfl

theorem overlong_of_fits {fits : κ → Bool} (hfits : ∀ name ∈ p, fits name = true) :
    t.overlong fits p = false := by
  simp only [overlong, List.any_eq_false, List.mem_inits, Bool.and_eq_true, Option.any_eq_true,
    not_and, not_exists]
  intro q hq _ name hlast
  have hmem := hq.subset (List.mem_of_getLast? hlast)
  simp [hfits name hmem]

theorem find_of_content (hcontent : t.content p = some a) : t.find p = .ok (.file a) := by
  rw [find, hcontent]

theorem content_of_find (hfind : t.find p = .ok (.file a)) : t.content p = some a := by
  rw [find] at hfind
  split at hfind
  · next found hcontent =>
      cases hfind
      exact hcontent
  · split at hfind <;> cases hfind

theorem find_of_absent (habsent : t.content p = none) :
    t.find p = if t.isDirAt p then .ok .dir else .error .notExist := by
  rw [find, habsent]

variable {t' : Tree κ α}

theorem fileAbove_congr (hfiles : t'.files = t.files) : t'.fileAbove p = t.fileAbove p := by
  simp only [fileAbove, content, hfiles]

/-! ## Changes -/

theorem mkdirAll_spec {refused : List κ → Option Errno} (hne : p ≠ [])
    (htaken : ∀ q, q <+: p → refused q = none) (hclear : t.fileAbove p = false)
    (hdir : t.isDirAt p = false) :
    ∃ t', t.mkdirAll refused p.dropLast = (t', none) ∧ t'.files = t.files ∧
      t'.isDirAt p.dropLast = true ∧ t'.isDirAt p = false := by
  have habove : ∀ q, q <+: p.dropLast → q <+: p ∧ q ≠ p := by
    intro q hq
    refine ⟨hq.trans (List.dropLast_prefix p), ?_⟩
    rintro rfl
    have hlength := hq.length_le
    rw [List.length_dropLast] at hlength
    have hpos := List.length_pos_of_ne_nil hne
    omega
  have hall : ∀ q ∈ p.dropLast.inits, refused q = none := fun q hq =>
    htaken q (habove q ((List.mem_inits q _).1 hq)).1
  refine ⟨{ t with made := t.made ++ p.dropLast.inits }, ?_, rfl, ?_, ?_⟩
  · rw [mkdirAll, if_neg, List.findSome?_eq_none_iff.2 hall, List.takeWhile_eq_self_iff.2]
    · intro q hq
      rw [hall q hq]
      rfl
    · rw [List.any_eq_true]
      rintro ⟨q, hq, hfile⟩
      obtain ⟨hinit, hother⟩ := habove q ((List.mem_inits q _).1 hq)
      rw [fileAbove_iff.2 ⟨q, hinit, hother, hfile⟩] at hclear
      cases hclear
  · simp only [isDirAt, List.any_append, Bool.or_eq_true, List.any_eq_true]
    exact .inl (.inr (.inr ⟨p.dropLast, by simp, by simp⟩))
  · have hnot : (p.dropLast.inits.any fun q => p <+: q) = false := by
      rw [List.any_eq_false]
      intro q hq hbelow
      exact (habove p ((of_decide_eq_true hbelow).trans ((List.mem_inits q _).1 hq))).2 rfl
    simp only [isDirAt, List.any_append, hnot, Bool.or_false] at hdir ⊢
    exact hdir

theorem content_set_self (hfiles : t'.files = Fields.set p a t.files) : t'.content p = some a := by
  rw [content, hfiles]
  exact Fields.lookup_set_self p a t.files

theorem content_set_of_ne (hfiles : t'.files = Fields.set p a t.files) (hne : q ≠ p) :
    t'.content q = t.content q := by
  rw [content, hfiles]
  exact Fields.lookup_set_of_ne hne a t.files

variable (t p) in
theorem content_erase_self (made : List (List κ)) :
    (⟨Fields.erase p t.files, made⟩ : Tree κ α).content p = none :=
  (Fields.lookup_erase p p t.files).trans (if_pos rfl)

theorem content_erase_of_ne (made : List (List κ)) (hne : q ≠ p) :
    (⟨Fields.erase p t.files, made⟩ : Tree κ α).content q = t.content q :=
  (Fields.lookup_erase p q t.files).trans (if_neg hne)

theorem remove_of_content (hcontent : t.content p = some a) :
    t.remove p = .ok ⟨Fields.erase p t.files, t.made ++ p.dropLast.inits⟩ := by
  rw [remove, hcontent]
  rfl

theorem remove_of_absent (habsent : t.content p = none) (hdir : t.isDirAt p = false) :
    t.remove p = .error .notExist := by
  rw [remove, habsent, hdir]
  rfl

/-! ## Trees in order -/

/-- The files are sorted by their paths, which are valid, and none is above another. -/
structure Ordered (Valid : List κ → Prop) (t : Tree κ α) : Prop where
  sorted : Fields.Sorted t.files
  valid : ∀ p a, t.content p = some a → Valid p
  apart : ∀ p a, t.content p = some a → t.fileAbove p = false

theorem ordered_empty {Valid : List κ → Prop} : Ordered Valid ({} : Tree κ α) :=
  ⟨List.Pairwise.nil, nofun, nofun⟩

namespace Ordered

variable {Valid : List κ → Prop}

variable (ordered : Ordered Valid t)

include ordered

theorem mem_walk : (q, a) ∈ t.walk p ↔ p <+: q ∧ t.content q = some a := by
  rw [walk, List.mem_filter, decide_eq_true_iff, and_comm]
  exact and_congr_right' ⟨Fields.lookup_of_mem ordered.sorted, Fields.mem_of_lookup⟩

theorem erase (p : List κ) (made : List (List κ)) :
    Ordered Valid (⟨Fields.erase p t.files, made⟩ : Tree κ α) := by
  have hcontent : ∀ q b, (⟨Fields.erase p t.files, made⟩ : Tree κ α).content q = some b →
      t.content q = some b := by
    intro q b hfile
    by_cases heq : q = p
    · rw [heq, content_erase_self] at hfile
      cases hfile
    · rwa [content_erase_of_ne made heq] at hfile
  refine ⟨Fields.sorted_erase ordered.sorted p,
    fun q b hfile => ordered.valid q b (hcontent q b hfile), fun q b hfile => ?_⟩
  have hclear := ordered.apart q b (hcontent q b hfile)
  by_contra habove
  obtain ⟨r, hr, hne, hfile'⟩ := fileAbove_iff.1 (Bool.not_eq_false _ ▸ habove)
  obtain ⟨c, hc⟩ := Option.isSome_iff_exists.1 hfile'
  rw [fileAbove_iff.2 ⟨r, hr, hne, by rw [hcontent r c hc]; rfl⟩] at hclear
  cases hclear

theorem set (hvalid : Valid p) (hclear : t.fileAbove p = false) (hdir : t.isDirAt p = false)
    (hfiles : t'.files = Fields.set p a t.files) : Ordered Valid t' where
  sorted := hfiles ▸ Fields.sorted_set ordered.sorted p a
  valid q b hfile := by
    by_cases heq : q = p
    · exact heq ▸ hvalid
    · rw [content_set_of_ne hfiles heq] at hfile
      exact ordered.valid q b hfile
  apart q b hfile := by
    by_contra habove
    obtain ⟨r, hr, hrq, hfile'⟩ := fileAbove_iff.1 (Bool.not_eq_false _ ▸ habove)
    by_cases hq : q = p
    · subst hq
      rw [content_set_of_ne hfiles hrq] at hfile'
      rw [fileAbove_iff.2 ⟨r, hr, hrq, hfile'⟩] at hclear
      cases hclear
    · rw [content_set_of_ne hfiles hq] at hfile
      by_cases hrp : r = p
      · rw [isDirAt_of_mem (mem_files hfile) (hrp ▸ hr) (hrp ▸ hrq)] at hdir
        cases hdir
      · rw [content_set_of_ne hfiles hrp] at hfile'
        have hapart := ordered.apart q b hfile
        rw [fileAbove_iff.2 ⟨r, hr, hrq, hfile'⟩] at hapart
        cases hapart

end Ordered

end Tree

end FondacoFormal.Library.FileTree
