import FondacoFormal.Library.FileTree
import FondacoFormal.Pipeline.Keys
import FondacoFormal.Storage.Put

/-!
# The store on a file system

The bytes of a key lie in the file of that path below `data`, its digest and media type in the
file `<key>.json` below `attrs`.
-/

namespace FondacoFormal.Storage

open Library Library.FileTree Library.Paths

abbrev Name := List Char

def bytesOf (s : Name) : Nat :=
  (s.map Char.utf8Size).sum

/-- The length of the store's own path and the longest name and path that the system takes, in
bytes. -/
structure Limits where
  root : Nat := 1
  name : Nat := 255
  path : Nat := 4095

namespace Limits

def fits (l : Limits) (s : Name) : Bool :=
  bytesOf s ≤ l.name

/-- The path `<root>/<tree>/<name>/…`. -/
def length (l : Limits) (tree : String) (p : List Name) : Nat :=
  l.root + 1 + bytesOf tree.toList + (p.map fun s => 1 + bytesOf s).sum

/-- What a call says of the path before it looks for any file. -/
def refused (l : Limits) (tree : String) (p : List Name) : Option Errno :=
  if p.any fun s => s.contains '\x00' then some .invalid
  else if l.path < l.length tree p then some .nameTooLong
  else none

end Limits

structure FsStore where
  limits : Limits := {}
  data : Tree Name Bytes := {}
  attrs : Tree Name Attrs := {}

/-- `BlobInfo` without the time. -/
structure BlobInfo where
  key : String
  size : Nat
  sha256 : String
  contentType : String
  deriving DecidableEq, Repr

inductive FsError where
  | invalidKey
  /-- `ErrNotFound`. -/
  | notFound
  | refused (error : PutError)
  | errno (error : Errno)
  deriving DecidableEq, Repr

def pathOf (key : String) : List Name :=
  segments key.toList

def attrsKey (key : String) : String :=
  key ++ ".json"

def sys {α β : Type} (l : Limits) (tree : String) (n : Tree Name α) (p : List Name)
    (call : Except Errno β) : Except Errno β :=
  match l.refused tree p with
  | some error => .error error
  | none => n.follow l.fits p call

namespace FsStore

/-- `readAttrs`. -/
def readAttrs (s : FsStore) (key : String) : Option Attrs :=
  if keyPath (attrsKey key) then
    match sys s.limits "attrs" s.attrs (pathOf (attrsKey key))
      (s.attrs.find (pathOf (attrsKey key))) with
    | .ok (.file a) => some a
    | _ => none
  else none

/-- What `Stat` reports of a file. -/
def infoOf (s : FsStore) (key : String) (bytes : Bytes) : BlobInfo where
  key := key
  size := bytes.length
  sha256 := ((s.readAttrs key).map Attrs.sha256).getD ""
  contentType := ((s.readAttrs key).map Attrs.contentType).getD ""

/-- `Get`; `Stat` is the same without the bytes. -/
def get (s : FsStore) (key : String) : Except FsError (Bytes × BlobInfo) :=
  if !keyPath key then .error .invalidKey
  else
    match sys s.limits "data" s.data (pathOf key) (s.data.find (pathOf key)) with
    | .ok (.file bytes) => .ok (bytes, s.infoOf key bytes)
    | .ok .dir | .error .notExist => .error .notFound
    | .error error => .error (.errno error)

/-- `Stat`. -/
def stat (s : FsStore) (key : String) : Except FsError BlobInfo :=
  (s.get key).map Prod.snd

/-- `MkdirAll` of the directory and `Rename` to the path: the tree after it, and the error. -/
def install {α : Type} (l : Limits) (tree : String) (content : α) (p : List Name)
    (n : Tree Name α) : Tree Name α × Option Errno :=
  let refused := fun q =>
    (l.refused tree q).or (if q.all l.fits then none else some .nameTooLong)
  match n.mkdirAll refused p.dropLast with
  | (made, some error) => (made, some error)
  | (made, none) =>
    match sys l tree made p (made.place content p) with
    | .error error => (made, some error)
    | .ok placed => (placed, none)

/-- `Put`, everything read. -/
def put (hash : Bytes → String) (key : String) (content : Bytes) (opts : PutOpts) (s : FsStore) :
    FsStore × Option FsError :=
  if !keyPath key || !keyPath (attrsKey key) then (s, some .invalidKey)
  else
    match verify hash opts content with
    | some error => (s, some (.refused error))
    | none =>
      let described :=
        install s.limits "attrs" ⟨hash content, opts.contentType⟩ (pathOf (attrsKey key)) s.attrs
      match described.2 with
      | some error => ({ s with attrs := described.1 }, some (.errno error))
      | none =>
        let written := install s.limits "data" content (pathOf key) s.data
        (⟨s.limits, written.1, described.1⟩, written.2.map .errno)

/-- `Delete`. -/
def delete (key : String) (s : FsStore) : FsStore × Option FsError :=
  if !keyPath key then (s, some .invalidKey)
  else
    match sys s.limits "data" s.data (pathOf key) (s.data.remove (pathOf key)) with
    | .error .notExist => (s, some .notFound)
    | .error error => (s, some (.errno error))
    | .ok data =>
      -- The attributes go as well if they can.
      match sys s.limits "attrs" s.attrs (pathOf (attrsKey key))
        (s.attrs.remove (pathOf (attrsKey key))) with
      | .ok attrs => (⟨s.limits, data, attrs⟩, none)
      | .error _ => ({ s with data := data }, none)

def beforeSlash (start : String) : Option String :=
  match (segments start.toList).dropLast with
  | [] => none
  | names => some (String.ofList (['/'].intercalate names))

/-- The directory `List` walks from. -/
def listDir (start : String) : List Name :=
  match beforeSlash start with
  | none => []
  | some above =>
    if keyPath (Text.trimSuffix above "/") then pathOf (Text.trimSuffix above "/") else []

def keyOf (p : List Name) : String :=
  String.ofList (['/'].intercalate p)

/-- `List`: what it reports of each file, the media type left out. -/
def list (s : FsStore) (start : String) : Except Errno (List BlobInfo) :=
  match sys s.limits "data" s.data (listDir start) (s.data.find (listDir start)) with
  | .error .notExist => .ok []
  | .error error => .error error
  | .ok _ =>
    .ok ((s.data.walk (listDir start)).filterMap fun file =>
      if start.toList.isPrefixOf (keyOf file.1).toList then
        some { s.infoOf (keyOf file.1) file.2 with contentType := "" }
      else none)

end FsStore

/-! ## Keys and paths -/

/-- A path that a stored file can have. -/
structure Valid (l : Limits) (tree : String) (p : List Name) : Prop where
  nonempty : p ≠ []
  proper : ∀ s ∈ p, Proper s
  slash : ∀ s ∈ p, '/' ∉ s
  fits : ∀ s ∈ p, l.fits s = true
  taken : l.refused tree p = none

theorem keyPath_iff (key : String) : keyPath key = true ↔ ∀ s ∈ pathOf key, Proper s := by
  constructor
  · intro hkey
    rw [keyPath] at hkey
    simp only [Bool.and_eq_true, Bool.not_eq_true', Bool.or_eq_false_iff, decide_eq_false_iff_not,
      not_not] at hkey
    obtain ⟨⟨⟨-, hrel⟩, -⟩, ⟨⟨hclean, hdot⟩, hup⟩, hbelow⟩ := hkey
    rw [hclean] at hdot hup hbelow
    refine Pipeline.proper_of_pathClean hrel hclean hdot hup fun h => ?_
    rw [List.isPrefixOf_iff_prefix.2 h] at hbelow
    cases hbelow
  · intro hproper
    have hvalid := (Pipeline.validRemotePath_iff key).2 (.inr hproper)
    have hclean := Pipeline.pathClean_of_proper hproper
    have hup : key ≠ ".." := by
      rintro rfl
      exact (hproper ['.', '.'] (by decide)).2.2 rfl
    have hlast : key.toList.getLast? ≠ some '/' := by
      intro hlast
      obtain ⟨front, hfront⟩ := List.getLast?_eq_some_iff.1 hlast
      refine (hproper [] ?_).1 rfl
      rw [pathOf, hfront, segments_append_slash]
      exact List.mem_append_right _ (by decide)
    rw [Pipeline.validRemotePath] at hvalid
    rw [keyPath]
    simp only [Bool.and_eq_true, Bool.not_eq_true', Bool.or_eq_false_iff, decide_eq_false_iff_not,
      not_not] at hvalid ⊢
    obtain ⟨⟨hempty, hrel⟩, ⟨-, hdot⟩, hbelow⟩ := hvalid
    exact ⟨⟨⟨hempty, hrel⟩, hlast⟩, ⟨⟨hclean, hdot⟩, by rwa [hclean]⟩, hbelow⟩

variable {key : String} {p : List Name} {info : BlobInfo} {s : FsStore}

namespace FsStore

theorem keyOf_pathOf (key : String) : keyOf (pathOf key) = key := by
  rw [keyOf, pathOf, intercalate_segments, String.ofList_toList]

theorem pathOf_keyOf (hne : p ≠ []) (hslash : ∀ s ∈ p, '/' ∉ s) : pathOf (keyOf p) = p := by
  rw [keyOf, pathOf, String.toList_ofList]
  exact segments_intercalate hslash hne

structure Formed (s : FsStore) : Prop where
  data : s.data.Ordered (Valid s.limits "data")
  attrs : s.attrs.Ordered (Valid s.limits "attrs")

variable {α β : Type} {l : Limits} {tree : String} {n : Tree Name α}

/-- A call that gets to its path is as on the tree itself. -/
theorem sys_of_clear (htaken : l.refused tree p = none) (hclear : n.fileAbove p = false)
    (hshort : n.overlong l.fits p = false) (call : Except Errno β) :
    sys l tree n p call = call := by
  rw [sys, htaken]
  exact Tree.follow_of_clear hclear hshort call

/-- A file is at the path of a key that `keyPath` accepts, and a system call gets to it. -/
theorem accepts_of_content (ordered : n.Ordered (Valid l tree)) {a : α}
    (hcontent : n.content (pathOf key) = some a) :
    keyPath key = true ∧
      ∀ {β : Type} (call : Except Errno β), sys l tree n (pathOf key) call = call := by
  have valid := ordered.valid _ _ hcontent
  exact ⟨(keyPath_iff key).2 valid.proper,
    sys_of_clear valid.taken (ordered.apart _ _ hcontent) (Tree.overlong_of_fits valid.fits)⟩

/-- A call that does not get to its path says so, and not that nothing is there. -/
theorem sys_of_not_clear (hnot : ¬(l.refused tree p = none ∧ n.fileAbove p = false ∧
    n.overlong l.fits p = false)) (call : Except Errno β) :
    ∃ error, error ≠ .notExist ∧ sys l tree n p call = .error error := by
  rw [sys]
  cases hrefused : l.refused tree p with
  | some error =>
    refine ⟨error, ?_, rfl⟩
    rintro rfl
    rw [Limits.refused] at hrefused
    split at hrefused
    · cases hrefused
    · split at hrefused <;> cases hrefused
  | none =>
    rw [Tree.follow]
    by_cases habove : n.fileAbove p = true
    · exact ⟨.notDir, by decide, if_pos habove⟩
    · by_cases hlong : n.overlong l.fits p = true
      · exact ⟨.nameTooLong, by decide, by rw [if_neg habove, if_pos hlong]⟩
      · exact absurd ⟨hrefused, Bool.not_eq_true _ ▸ habove, Bool.not_eq_true _ ▸ hlong⟩ hnot

theorem ok_of_sys {call : Except Errno β} {b : β} (hsys : sys l tree n p call = .ok b) :
    call = .ok b := by
  rw [sys] at hsys
  split at hsys
  · cases hsys
  · rw [Tree.follow] at hsys
    split at hsys
    · cases hsys
    · split at hsys
      · cases hsys
      · exact hsys

/-- `Get` finds exactly the files. -/
theorem get_eq_ok (formed : s.Formed) {bytes : Bytes} :
    s.get key = .ok (bytes, info) ↔
      s.data.content (pathOf key) = some bytes ∧ info = s.infoOf key bytes := by
  constructor
  · intro hget
    rw [get] at hget
    split at hget
    · cases hget
    · split at hget
      · next found hfound =>
          obtain ⟨rfl, rfl⟩ := Prod.ext_iff.1 (Except.ok.inj hget)
          exact ⟨Tree.content_of_find (ok_of_sys hfound), rfl⟩
      · cases hget
      · cases hget
      · cases hget
  · rintro ⟨hcontent, rfl⟩
    obtain ⟨hkey, hsys⟩ := accepts_of_content formed.data hcontent
    rw [get, hkey, hsys, Tree.find_of_content hcontent]
    rfl

theorem stat_eq_ok (formed : s.Formed) :
    s.stat key = .ok info ↔
      ∃ bytes, s.data.content (pathOf key) = some bytes ∧ info = s.infoOf key bytes := by
  rw [stat]
  constructor
  · intro hstat
    cases hget : s.get key with
    | error error =>
      rw [hget] at hstat
      cases hstat
    | ok found =>
      rw [hget] at hstat
      obtain ⟨bytes, info'⟩ := found
      cases hstat
      exact ⟨bytes, (get_eq_ok formed).1 hget⟩
  · rintro ⟨bytes, hcontent, hinfo⟩
    rw [(get_eq_ok formed).2 ⟨hcontent, hinfo⟩]
    rfl

end FsStore

end FondacoFormal.Storage
