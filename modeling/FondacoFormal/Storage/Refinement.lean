import FondacoFormal.Storage.Listing

/-!
# The store on a file system as a map

A store is meant to be a finite map from keys to objects.
-/

namespace FondacoFormal.Storage

open Library Library.Runs Library.FileTree Library.Paths

/-! ## The map -/

structure Object where
  bytes : Bytes
  sha256 : String
  contentType : String
  deriving DecidableEq, Repr

def Object.info (o : Object) (key : String) : BlobInfo :=
  ⟨key, o.bytes.length, o.sha256, o.contentType⟩

abbrev ObjectMap := List (String × Object)

inductive StoreOp where
  | put (key : String) (content : Bytes) (opts : PutOpts)
  | get (key : String)
  | stat (key : String)
  | delete (key : String)
  | list (start : String)

inductive Answer where
  | done
  | object (bytes : Bytes) (info : BlobInfo)
  | info (info : BlobInfo)
  | listing (infos : List BlobInfo)
  | failed (error : FsError)
  deriving DecidableEq, Repr

def Answer.ofError : Option FsError → Answer
  | none => done
  | some error => failed error

def ObjectMap.step (hash : Bytes → String) : StoreOp → ObjectMap → ObjectMap × Answer
  | .put key content opts, m =>
    match verify hash opts content with
    | some error => (m, .failed (.refused error))
    | none => (Fields.set key ⟨content, hash content, opts.contentType⟩ m, .done)
  | .get key, m =>
    match m.lookup key with
    | some o => (m, .object o.bytes (o.info key))
    | none => (m, .failed .notFound)
  | .stat key, m =>
    match m.lookup key with
    | some o => (m, .info (o.info key))
    | none => (m, .failed .notFound)
  | .delete key, m =>
    match m.lookup key with
    | some _ => (Fields.erase key m, .done)
    | none => (m, .failed .notFound)
  | .list start, m =>
    (m, .listing ((m.filter fun entry => start.toList.isPrefixOf entry.1.toList).map fun entry =>
      { entry.2.info entry.1 with contentType := "" }))

def FsStore.step (hash : Bytes → String) : StoreOp → FsStore → FsStore × Answer
  | .put key content opts, s =>
    let done := s.put hash key content opts
    (done.1, .ofError done.2)
  | .get key, s =>
    match s.get key with
    | .ok (bytes, info) => (s, .object bytes info)
    | .error error => (s, .failed error)
  | .stat key, s =>
    match s.stat key with
    | .ok info => (s, .info info)
    | .error error => (s, .failed error)
  | .delete key, s =>
    let done := s.delete key
    (done.1, .ofError done.2)
  | .list start, s =>
    match s.list start with
    | .ok infos => (s, .listing infos)
    | .error error => (s, .failed (.errno error))

/-! ## The layout -/

/-- The key is one that `keyPath` accepts. -/
def StoreOp.accepted : StoreOp → Bool
  | put key _ _ | get key | stat key | delete key => keyPath key
  | list _ => true

/-- The path can be used: it has no zero byte and is not too long, no name above it is that of a
file, and the first name that is not there is not too long. -/
def Open {α : Type} (l : Limits) (tree : String) (n : Tree Name α) (p : List Name) : Prop :=
  l.refused tree p = none ∧ n.fileAbove p = false ∧ n.overlong l.fits p = false
  deriving Decidable

/-- A file can be put at the path: besides, no name is too long and no directory is there. -/
def Vacant {α : Type} (l : Limits) (tree : String) (n : Tree Name α) (p : List Name) : Prop :=
  Open l tree n p ∧ (∀ name ∈ p, l.fits name = true) ∧ n.isDirAt p = false
  deriving Decidable

def Unobstructed (s : FsStore) : StoreOp → Prop
  | .put key _ _ =>
    Vacant s.limits "data" s.data (pathOf key) ∧
      Vacant s.limits "attrs" s.attrs (pathOf (attrsKey key))
  | .get key | .stat key => Open s.limits "data" s.data (pathOf key)
  | .delete key =>
    Open s.limits "data" s.data (pathOf key) ∧ s.data.isDirAt (pathOf key) = false
  | .list start => s.Reachable start ∧ s.Uncrossed start

/-! ## The correspondence -/

structure Holds (s : FsStore) (m : ObjectMap) : Prop where
  formed : s.Formed
  sorted : Fields.Sorted m
  data : ∀ key, s.data.content (pathOf key) = (m.lookup key).map Object.bytes
  attrs : ∀ key o, m.lookup key = some o →
    s.attrs.content (pathOf (attrsKey key)) = some ⟨o.sha256, o.contentType⟩

theorem pathOf_injective {a b : String} (heq : pathOf a = pathOf b) : a = b :=
  String.toList_inj.1 (segments_injective heq)

theorem attrsKey_injective {a b : String} (heq : attrsKey a = attrsKey b) : a = b := by
  have htext := congrArg String.toList heq
  simp only [attrsKey, String.toList_append, List.append_cancel_right_eq] at htext
  exact String.toList_inj.1 htext

theorem pathOf_ne_nil (key : String) : pathOf key ≠ [] :=
  segments_ne_nil key.toList

theorem Vacant.valid {α : Type} {l : Limits} {tree : String} {n : Tree Name α} {key : String}
    (vacant : Vacant l tree n (pathOf key)) (hkey : keyPath key = true) :
    Valid l tree (pathOf key) where
  nonempty := pathOf_ne_nil key
  proper := (keyPath_iff key).1 hkey
  slash _ hname := slash_not_mem_segment hname
  fits := vacant.2.1
  taken := vacant.1.1

theorem keyPath_attrsKey {key : String} (hkey : keyPath key = true) :
    keyPath (attrsKey key) = true := by
  refine (keyPath_iff _).2 fun name hname => ?_
  rw [pathOf, attrsKey, String.toList_append, segments_append (by decide)] at hname
  obtain hname | hname := List.mem_append.1 hname
  · exact (keyPath_iff key).1 hkey name (List.mem_of_mem_dropLast hname)
  · rw [List.mem_singleton.1 hname]
    have hlength : ∀ (last short : Name), short.length < 5 → last ++ ".json".toList ≠ short := by
      rintro last short hshort rfl
      rw [List.length_append] at hshort
      exact absurd hshort (by
        have : ".json".toList.length = 5 := by decide
        omega)
    exact ⟨hlength _ [] (by decide), hlength _ ['.'] (by decide), hlength _ ['.', '.'] (by decide)⟩

variable {o : Object}

namespace Holds

variable {s : FsStore} {m : ObjectMap} {key : String}

variable (holds : Holds s m)

include holds

section

variable (hlookup : m.lookup key = some o)

include hlookup

theorem readAttrs : s.readAttrs key = some ⟨o.sha256, o.contentType⟩ := by
  have hcontent := holds.attrs key o hlookup
  obtain ⟨hkey, hsys⟩ := FsStore.accepts_of_content holds.formed.attrs hcontent
  rw [FsStore.readAttrs, if_pos hkey, hsys, Tree.find_of_content hcontent]

theorem infoOf : s.infoOf key o.bytes = o.info key := by
  rw [FsStore.infoOf, holds.readAttrs hlookup]
  rfl

theorem get_some : s.get key = .ok (o.bytes, o.info key) := by
  have hdata := holds.data key
  rw [hlookup] at hdata
  exact (FsStore.get_eq_ok holds.formed).2 ⟨hdata, (holds.infoOf hlookup).symm⟩

end

theorem get_none (hkey : keyPath key = true) (hopen : Open s.limits "data" s.data (pathOf key))
    (hlookup : m.lookup key = none) : s.get key = .error .notFound := by
  -- nothing is at the path of a key that the map does not have, or a directory is
  have hdata := holds.data key
  rw [hlookup] at hdata
  rw [FsStore.get, hkey, FsStore.sys_of_clear hopen.1 hopen.2.1 hopen.2.2,
    Tree.find_of_absent hdata]
  cases s.data.isDirAt (pathOf key) with
  | true | false => rfl

end Holds

/-! ## Writing -/

theorem refused_of_above {l : Limits} {tree : String} {p q : List Name} (hbelow : q <+: p)
    (htaken : l.refused tree p = none) : l.refused tree q = none := by
  obtain ⟨rest, rfl⟩ := hbelow
  rw [Limits.refused] at htaken ⊢
  split at htaken
  · cases htaken
  · next hzero =>
      split at htaken
      · cases htaken
      · next hlength =>
          rw [List.any_append, Bool.or_eq_true, not_or] at hzero
          rw [Limits.length, List.map_append, List.sum_append] at hlength
          rw [if_neg hzero.1, if_neg]
          rw [Limits.length]
          omega

theorem install_spec {α : Type} {l : Limits} {tree : String} (content : α) {n : Tree Name α}
    {p : List Name} (ordered : n.Ordered (Valid l tree)) (hvalid : Valid l tree p)
    (hclear : n.fileAbove p = false) (hdir : n.isDirAt p = false) :
    ∃ n', FsStore.install l tree content p n = (n', none) ∧ n'.Ordered (Valid l tree) ∧
      n'.files = Fields.set p content n.files := by
  have htaken : ∀ q, q <+: p →
      (l.refused tree q).or (if q.all l.fits then none else some .nameTooLong) = none := by
    intro q hq
    rw [refused_of_above hq hvalid.taken,
      if_pos (List.all_eq_true.2 fun name hname => hvalid.fits name (hq.subset hname))]
    rfl
  obtain ⟨made, hmade, hfiles, hparent, hself⟩ :=
    Tree.mkdirAll_spec hvalid.nonempty htaken hclear hdir
  have hplace : made.place content p =
      .ok { made with files := Fields.set p content made.files } := by
    rw [Tree.place, hself, hparent]
    rfl
  have hset : Fields.set p content made.files = Fields.set p content n.files := by rw [hfiles]
  refine ⟨{ made with files := Fields.set p content made.files }, ?_,
    ordered.set hvalid hclear hdir hset, hset⟩
  simp only [FsStore.install, hmade]
  rw [FsStore.sys_of_clear hvalid.taken (by rw [Tree.fileAbove_congr hfiles, hclear])
    (Tree.overlong_of_fits hvalid.fits), hplace]

namespace Holds

variable {s : FsStore} {m : ObjectMap} {key : String}

variable (holds : Holds s m)

include holds

theorem put (hash : Bytes → String) {content : Bytes} {opts : PutOpts} (hkey : keyPath key = true)
    (hverify : verify hash opts content = none) (hfree : Unobstructed s (.put key content opts)) :
    ∃ s', s.put hash key content opts = (s', none) ∧
      Holds s' (Fields.set key ⟨content, hash content, opts.contentType⟩ m) := by
  obtain ⟨vacant, vacantAttrs⟩ := hfree
  have hattrsKey := keyPath_attrsKey hkey
  obtain ⟨attrs, hattrs, hattrsOrdered, hattrsFiles⟩ :=
    install_spec (⟨hash content, opts.contentType⟩ : Attrs) holds.formed.attrs
      (vacantAttrs.valid hattrsKey) vacantAttrs.1.2.1 vacantAttrs.2.2
  obtain ⟨data, hdata, hdataOrdered, hdataFiles⟩ :=
    install_spec content holds.formed.data (vacant.valid hkey) vacant.1.2.1 vacant.2.2
  refine ⟨⟨s.limits, data, attrs⟩, ?_, ⟨hdataOrdered, hattrsOrdered⟩,
    Fields.sorted_set holds.sorted _ _,
    fun other => ?_, fun other o hlookup => ?_⟩
  · rw [FsStore.put, hkey, hattrsKey]
    simp only [Bool.not_true, Bool.or_self, Bool.false_eq_true, if_false, hverify, hattrs, hdata,
      Option.map_none]
  · by_cases heq : other = key
    · rw [heq, Fields.lookup_set_self, Tree.content_set_self hdataFiles]
      rfl
    · rw [Fields.lookup_set_of_ne heq,
        Tree.content_set_of_ne hdataFiles fun h => heq (pathOf_injective h)]
      exact holds.data other
  · by_cases heq : other = key
    · rw [heq, Fields.lookup_set_self] at hlookup
      cases hlookup
      rw [heq, Tree.content_set_self hattrsFiles]
    · rw [Fields.lookup_set_of_ne heq] at hlookup
      rw [Tree.content_set_of_ne hattrsFiles fun h => heq (attrsKey_injective (pathOf_injective h))]
      exact holds.attrs other o hlookup

theorem delete_some (hkey : keyPath key = true) (hlookup : m.lookup key = some o) :
    ∃ s', s.delete key = (s', none) ∧ Holds s' (Fields.erase key m) := by
  have hfile := holds.data key
  rw [hlookup] at hfile
  have hfileAttrs := holds.attrs key o hlookup
  have hdata := Tree.remove_of_content hfile
  have hattrs := Tree.remove_of_content hfileAttrs
  refine ⟨⟨s.limits, ⟨Fields.erase (pathOf key) s.data.files,
    s.data.made ++ (pathOf key).dropLast.inits⟩,
    ⟨Fields.erase (pathOf (attrsKey key)) s.attrs.files,
      s.attrs.made ++ (pathOf (attrsKey key)).dropLast.inits⟩⟩, ?_,
    ⟨holds.formed.data.erase _ _, holds.formed.attrs.erase _ _⟩, Fields.sorted_erase holds.sorted _,
      fun other => ?_, fun other found hother => ?_⟩
  · rw [FsStore.delete, hkey, (FsStore.accepts_of_content holds.formed.data hfile).2, hdata,
      (FsStore.accepts_of_content holds.formed.attrs hfileAttrs).2, hattrs]
    rfl
  · rw [Fields.lookup_erase]
    by_cases heq : other = key
    · rw [if_pos heq, heq, Tree.content_erase_self]
      rfl
    · rw [if_neg heq, Tree.content_erase_of_ne _ fun h => heq (pathOf_injective h)]
      exact holds.data other
  · rw [Fields.lookup_erase] at hother
    split at hother
    · cases hother
    · next heq =>
        rw [Tree.content_erase_of_ne _ fun h => heq (attrsKey_injective (pathOf_injective h))]
        exact holds.attrs other found hother

theorem delete_none (hkey : keyPath key = true) (hfree : Unobstructed s (.delete key))
    (hlookup : m.lookup key = none) : s.delete key = (s, some .notFound) := by
  have hdata := holds.data key
  rw [hlookup] at hdata
  rw [FsStore.delete, hkey, FsStore.sys_of_clear hfree.1.1 hfree.1.2.1 hfree.1.2.2,
    Tree.remove_of_absent hdata hfree.2]
  rfl

theorem list {start : String} (hfree : Unobstructed s (.list start)) :
    s.list start = .ok ((m.filter fun entry => start.toList.isPrefixOf entry.1.toList).map
      fun entry => { entry.2.info entry.1 with contentType := "" }) := by
  obtain ⟨infos, hlist, hsorted, -, -⟩ :=
    FsStore.listsAsStat_of_uncrossed holds.formed hfree.1 hfree.2
  obtain ⟨infos', hlist', -, hmem⟩ := FsStore.list_spec holds.formed hfree.1
  obtain rfl : infos = infos' := Except.ok.inj (hlist.symm.trans hlist')
  have hantisymm : Std.Antisymm fun a b : BlobInfo => a.key < b.key :=
    ⟨fun _ _ hab hba => absurd hab (lt_asymm hba)⟩
  have hirrefl : Std.Irrefl fun a b : BlobInfo => a.key < b.key := ⟨fun _ => lt_irrefl _⟩
  have hmap : ((m.filter fun entry => start.toList.isPrefixOf entry.1.toList).map
      fun entry => { entry.2.info entry.1 with contentType := "" }).Pairwise
      fun a b => a.key < b.key :=
    List.pairwise_map.2 (holds.sorted.sublist List.filter_sublist)
  rw [hlist, hsorted.eq_of_mem_iff hmap fun info => ?_]
  rw [hmem, List.mem_map]
  constructor
  · rintro ⟨key, bytes, hstart, hcontent, rfl⟩
    rw [holds.data key] at hcontent
    obtain ⟨o, hlookup, rfl⟩ := Option.map_eq_some_iff.1 hcontent
    refine ⟨(key, o), List.mem_filter.2 ⟨Fields.mem_of_lookup hlookup,
      List.isPrefixOf_iff_prefix.2 hstart⟩, ?_⟩
    rw [FsStore.listed, holds.infoOf hlookup]
  · rintro ⟨⟨key, o⟩, hentry, rfl⟩
    obtain ⟨hentry, hstart⟩ := List.mem_filter.1 hentry
    have hlookup := Fields.lookup_of_mem holds.sorted hentry
    refine ⟨key, o.bytes, List.isPrefixOf_iff_prefix.1 hstart, ?_, ?_⟩
    · rw [holds.data key, hlookup]
      rfl
    · rw [FsStore.listed, holds.infoOf hlookup]

theorem step (hash : Bytes → String) (op : StoreOp) (haccepted : op.accepted = true)
    (hfree : Unobstructed s op) :
    Holds (s.step hash op).1 (ObjectMap.step hash op m).1 ∧
      (s.step hash op).2 = (ObjectMap.step hash op m).2 := by
  cases op with
  | put key content opts =>
    rw [FsStore.step, ObjectMap.step]
    cases hverify : verify hash opts content with
    | some error =>
      have hput : s.put hash key content opts = (s, some (.refused error)) := by
        rw [FsStore.put, show keyPath key = true from haccepted, keyPath_attrsKey haccepted,
          hverify]
        rfl
      rw [hput]
      exact ⟨holds, rfl⟩
    | none =>
      obtain ⟨s', hput, hafter⟩ := holds.put hash haccepted hverify hfree
      rw [hput]
      exact ⟨hafter, rfl⟩
  | get key | stat key =>
    simp only [FsStore.step, FsStore.stat, ObjectMap.step]
    cases hlookup : m.lookup key with
    | some o =>
      rw [holds.get_some hlookup]
      exact ⟨holds, rfl⟩
    | none =>
      rw [holds.get_none haccepted hfree hlookup]
      exact ⟨holds, rfl⟩
  | delete key =>
    rw [FsStore.step, ObjectMap.step]
    cases hlookup : m.lookup key with
    | some o =>
      obtain ⟨s', hdelete, hafter⟩ := holds.delete_some haccepted hlookup
      rw [hdelete]
      exact ⟨hafter, rfl⟩
    | none =>
      rw [holds.delete_none haccepted hfree hlookup]
      exact ⟨holds, rfl⟩
  | list start =>
    rw [FsStore.step, ObjectMap.step, holds.list hfree]
    exact ⟨holds, rfl⟩

end Holds

/-! ## Every sequence of calls -/

def emptyFs (limits : Limits) : FsStore := { limits := limits }

theorem emptyFs_holds (limits : Limits) : Holds (emptyFs limits) [] where
  formed := ⟨Tree.ordered_empty, Tree.ordered_empty⟩
  sorted := List.Pairwise.nil
  data key := rfl
  attrs key o hlookup := by cases hlookup

/--
Every sequence of calls with keys that `keyPath` accepts is answered as by a map, as long as
no call meets a file or a directory of another key in its way, the system takes the names and
the path, and every `List` keeps to the order.
-/
theorem fs_refines_map (limits : Limits) (hash : Bytes → String) (ops : List StoreOp)
    (haccepted : ∀ op ∈ ops, op.accepted = true)
    (hfree : Meets (fun op s => (FsStore.step hash op s).1) Unobstructed ops (emptyFs limits)) :
    outputs (FsStore.step hash) ops (emptyFs limits) = outputs (ObjectMap.step hash) ops [] := by
  have hkeys : Meets (fun op s => (FsStore.step hash op s).1)
      (fun _ op => StoreOp.accepted op = true) ops (emptyFs limits) :=
    meets_of_forall (fun op hop _ => haccepted op hop) (emptyFs limits)
  have hboth := hfree.and hkeys
  refine outputs_eq_of_simulation (fun s m op holds hop => ?_) (emptyFs_holds limits) hboth
  exact Holds.step holds hash op hop.2 hop.1

def plainCalls : List StoreOp :=
  [.put "a/x" [1] {}, .get "a/x", .delete "a/x"]

theorem plain_calls_refine :
    outputs (FsStore.step sampleHash) plainCalls (emptyFs {}) =
      outputs (ObjectMap.step sampleHash) plainCalls [] := by
  refine fs_refines_map {} sampleHash plainCalls (by decide +kernel)
    ⟨⟨?_, ?_⟩, ?_, ⟨?_, ?_⟩, trivial⟩
  · decide +kernel
  · decide +kernel
  · change Open _ _ _ _
    decide +kernel
  · decide +kernel
  · decide +kernel

def keyBelowKey : List StoreOp :=
  [.put "a" [1] {}, .put "a/b" [2] {}, .stat "a/b"]

def keyBelowAttrs : List StoreOp :=
  [.put "k" [1] {}, .put "k.json/x" [2] {}]

def directoryStays : List StoreOp :=
  [.put "a/b" [1] {}, .delete "a/b", .put "a" [2] {}, .delete "a"]

theorem keys_in_the_way :
    (∀ op ∈ keyBelowKey ++ keyBelowAttrs ++ directoryStays, op.accepted = true) ∧
      outputs (FsStore.step sampleHash) keyBelowKey (emptyFs {}) =
        [.done, .failed (.errno .notDir), .failed (.errno .notDir)] ∧
      outputs (ObjectMap.step sampleHash) keyBelowKey [] =
        [.done, .done, .info ⟨"a/b", 1, "bb", ""⟩] ∧
      outputs (FsStore.step sampleHash) keyBelowAttrs (emptyFs {}) =
        [.done, .failed (.errno .notDir)] ∧
      outputs (ObjectMap.step sampleHash) keyBelowAttrs [] = [.done, .done] ∧
      outputs (FsStore.step sampleHash) directoryStays (emptyFs {}) =
        [.done, .done, .failed (.errno .exist), .done] ∧
      outputs (ObjectMap.step sampleHash) directoryStays [] = [.done, .done, .done, .done] := by
  refine ⟨by decide +kernel, by decide +kernel, by decide +kernel, by decide +kernel,
    by decide +kernel, by decide +kernel, by decide +kernel⟩

end FondacoFormal.Storage
