import FondacoFormal.Formats.OciClosure

/-!
# Collecting abandoned uploads

`sweepStaging` of the garbage collector walks what is staged below `uploads/` and deletes each
chunk that is not younger than the cutoff.
-/

namespace FondacoFormal.Formats.Oci

open Server

/-! ## The store -/

/-- An object as `List` reports it, with its content. -/
structure Staged where
  key : String
  content : Bytes
  modTime : Int
  deriving DecidableEq, Repr

structure Holding where
  objects : List Staged
  distinct : (objects.map Staged.key).Nodup

namespace Holding

/-- `List`. -/
def list (s : Holding) (start : String) : List Staged :=
  s.objects.filter fun info => startsWith start info.key

def remove (s : Holding) (key : String) : Holding where
  objects := s.objects.filter fun info => info.key ≠ key
  distinct := s.distinct.sublist (List.filter_sublist.map _)

theorem eq_of_key {s : Holding} {a b : Staged} (ha : a ∈ s.objects) (hb : b ∈ s.objects)
    (hkey : a.key = b.key) : a = b :=
  List.inj_on_of_nodup_map s.distinct ha hb hkey

end Holding

/-! ## The sweep -/

/-- How a call of `Delete` ends. -/
inductive Removal where
  | removed
  | failed (error : Failure) (gone : Bool)
  deriving DecidableEq, Repr

structure Sweeping where
  /-- The error of `List`. -/
  list : Option Failure
  broken : Option (Nat × Failure)
  delete : String → Removal

/-- The store after a call of `Delete`. -/
def Removal.apply (r : Removal) (key : String) (s : Holding) : Holding :=
  match r with
  | removed => s.remove key
  | failed _ gone => if gone then s.remove key else s

/-- The error of `Delete` that ends the sweep; an object that was gone already does not. -/
def Removal.error : Removal → Option Failure
  | removed => none
  | failed error _ => if error.wraps = some .notFound then none else some error

/-- The loop of `sweepStaging`, counting the chunks it collects and their bytes. -/
def sweepChunks (env : Sweeping) (cutoff : Int) (doDelete : Bool) :
    List Staged → Nat → Nat → Holding → Holding × Except Failure (Nat × Nat)
  | [], count, bytes, s =>
    match env.broken with
    | some (_, error) => (s, .error (error.within "walk staged uploads"))
    | none => (s, .ok (count, bytes))
  | info :: rest, count, bytes, s =>
    if cutoff < info.modTime then sweepChunks env cutoff doDelete rest count bytes s
    else if doDelete then
      match (env.delete info.key).error with
      | some error =>
        ((env.delete info.key).apply info.key s, .error (error.within ("delete " ++ info.key)))
      | none =>
        sweepChunks env cutoff doDelete rest (count + 1) (bytes + info.content.length)
          ((env.delete info.key).apply info.key s)
    else sweepChunks env cutoff doDelete rest (count + 1) (bytes + info.content.length) s

/-- `sweepStaging`. -/
def sweepStaging (env : Sweeping) (cutoff : Int) (doDelete : Bool) (s : Holding) :
    Holding × Except Failure (Nat × Nat) :=
  match env.list with
  | some error =>
    if error.wraps = some .notFound then (s, .ok (0, 0))
    else (s, .error (error.within "list staged uploads"))
  | none =>
    let walked := s.list "uploads/"
    sweepChunks env cutoff doDelete
      (match env.broken with
      | some (n, _) => walked.take n
      | none => walked) 0 0 s

/-! ## What it deletes -/

/-- The store after a step is the one before without some keys of old objects. -/
def Pruned (cutoff : Int) (entries : List Staged) (s s' : Holding) : Prop :=
  ∃ gone : List String, s'.objects = s.objects.filter (fun info => info.key ∉ gone) ∧
    ∀ key ∈ gone, ∃ info ∈ entries, info.key = key ∧ info.modTime ≤ cutoff

theorem Pruned.refl (cutoff : Int) (entries : List Staged) (s : Holding) :
    Pruned cutoff entries s s :=
  ⟨[], by simp, by simp⟩

variable {s : Holding} {cutoff : Int} {info : Staged} {rest : List Staged} {s' : Holding}

theorem Pruned.cons (h : Pruned cutoff rest s s') : Pruned cutoff (info :: rest) s s' := by
  obtain ⟨gone, hobjects, hgone⟩ := h
  refine ⟨gone, hobjects, fun key hkey => ?_⟩
  obtain ⟨old, hold, hrest⟩ := hgone key hkey
  exact ⟨old, List.mem_cons_of_mem _ hold, hrest⟩

theorem Pruned.apply (hold : info.modTime ≤ cutoff) (r : Removal)
    (h : Pruned cutoff (info :: rest) (r.apply info.key s) s') :
    Pruned cutoff (info :: rest) s s' := by
  have hremove : Pruned cutoff (info :: rest) (s.remove info.key) s' →
      Pruned cutoff (info :: rest) s s' := by
    rintro ⟨gone, hobjects, hgone⟩
    refine ⟨info.key :: gone, ?_, fun key hkey => ?_⟩
    · rw [hobjects, Holding.remove, List.filter_filter]
      refine List.filter_congr fun entry _ => ?_
      simp [not_or, Bool.and_comm]
    · obtain rfl | hkey := List.mem_cons.1 hkey
      · exact ⟨info, List.mem_cons_self, rfl, hold⟩
      · exact hgone key hkey
  cases r with
  | removed => exact hremove h
  | failed error gone =>
    cases gone with
    | true => exact hremove h
    | false => exact h

theorem sweepChunks_pruned (env : Sweeping) (cutoff : Int) (doDelete : Bool)
    (entries : List Staged) (count bytes : Nat) (s : Holding) :
    Pruned cutoff entries s (sweepChunks env cutoff doDelete entries count bytes s).1 := by
  induction entries generalizing count bytes s with
  | nil =>
    rw [sweepChunks]
    split <;> exact .refl _ _ _
  | cons info rest ih =>
    rw [sweepChunks]
    split
    · exact (ih _ _ _).cons
    · next hold =>
        split
        · split
          · exact Pruned.apply (not_lt.1 hold) _ (.refl _ _ _)
          · exact Pruned.apply (not_lt.1 hold) _ (ih _ _ _).cons
        · exact (ih _ _ _).cons

theorem sweepStaging_pruned (env : Sweeping) (cutoff : Int) (doDelete : Bool) (s : Holding) :
    Pruned cutoff s.objects s (sweepStaging env cutoff doDelete s).1 := by
  rw [sweepStaging]
  split
  · split <;> exact .refl _ _ _
  · obtain ⟨gone, hobjects, hgone⟩ := sweepChunks_pruned env cutoff doDelete
      (match env.broken with
        | some (n, _) => (s.list "uploads/").take n
        | none => s.list "uploads/") 0 0 s
    refine ⟨gone, hobjects, fun key hkey => ?_⟩
    obtain ⟨info, hinfo, hrest⟩ := hgone key hkey
    refine ⟨info, List.mem_of_mem_filter
      (p := fun info => startsWith "uploads/" info.key) ?_, hrest⟩
    cases hbroken : env.broken with
    | none =>
      simp only [hbroken] at hinfo
      exact hinfo
    | some stop =>
      simp only [hbroken] at hinfo
      exact List.mem_of_mem_take hinfo

def Sweeping.healthy : Sweeping where
  list := none
  broken := none
  delete _ := .removed

theorem sweepChunks_healthy {entries : List Staged} (hinfo : info ∈ entries)
    (hold : info.modTime ≤ cutoff) (count bytes : Nat) (s : Holding) :
    info ∉ (sweepChunks .healthy cutoff true entries count bytes s).1.objects := by
  induction entries generalizing count bytes s with
  | nil => cases hinfo
  | cons first rest ih =>
    rw [sweepChunks]
    obtain rfl | hinfo := List.mem_cons.1 hinfo
    · rw [if_neg (not_lt.2 hold), if_pos rfl]
      intro hleft
      obtain ⟨gone, hobjects, -⟩ := sweepChunks_pruned .healthy cutoff true rest (count + 1)
        (bytes + info.content.length) (s.remove info.key)
      have hkept : info ∈ (s.remove info.key).objects := by
        refine List.mem_of_mem_filter (p := fun entry => entry.key ∉ gone) ?_
        rw [← hobjects]
        exact hleft
      simp [Holding.remove] at hkept
    · split
      · exact ih hinfo _ _ _
      · exact ih hinfo _ _ _

/-! ## Uploads -/

structure Upload where
  feed : String
  repo : String
  uploadID : String
  deriving DecidableEq, Repr

/-- The chunks `stagedParts` lists. -/
def Upload.chunks (u : Upload) (s : Holding) : List Staged :=
  s.list (uploadKeyStart u.feed u.repo u.uploadID)

def Upload.Live (u : Upload) (cutoff : Int) (s : Holding) : Prop :=
  ∃ info ∈ u.chunks s, cutoff < info.modTime

/-- No chunk of the upload is as old as the cutoff beside one that is younger. -/
def Upload.OneAge (u : Upload) (cutoff : Int) (s : Holding) : Prop :=
  ∀ old ∈ u.chunks s, ∀ young ∈ u.chunks s, cutoff < young.modTime → cutoff < old.modTime

variable {u : Upload}

theorem Upload.OneAge.chunks_kept (hage : u.OneAge cutoff s) (hlive : u.Live cutoff s)
    (env : Sweeping) (doDelete : Bool) :
    u.chunks (sweepStaging env cutoff doDelete s).1 = u.chunks s := by
  obtain ⟨young, hyoung, hafter⟩ := hlive
  obtain ⟨gone, hobjects, hgone⟩ := sweepStaging_pruned env cutoff doDelete s
  rw [Upload.chunks, Holding.list, hobjects, List.filter_filter]
  refine List.filter_congr fun chunk hchunk => ?_
  by_cases hstart : startsWith (uploadKeyStart u.feed u.repo u.uploadID) chunk.key = true
  · have hin : chunk ∈ u.chunks s := List.mem_filter.2 ⟨hchunk, hstart⟩
    have hkept : chunk.key ∉ gone := by
      intro hkey
      obtain ⟨info, hinfo, hsame, hold⟩ := hgone _ hkey
      have heq := s.eq_of_key hinfo hchunk hsame
      rw [heq] at hold
      exact absurd (hage chunk hin young hyoung hafter) (not_lt.2 hold)
    simp [hstart, hkept]
  · simp [hstart]

theorem Upload.chunk_listed {chunk : Staged} (hchunk : chunk ∈ u.chunks s) :
    chunk ∈ s.list "uploads/" := by
  obtain ⟨hmem, hstart⟩ := List.mem_filter.1 hchunk
  exact List.mem_filter.2
    ⟨hmem, startsWith_trans (staging_uploadKeyStart u.feed u.repo u.uploadID) hstart⟩

theorem Upload.old_chunk_swept {old : Staged} (hchunk : old ∈ u.chunks s)
    (hold : old.modTime ≤ cutoff) :
    u.chunks (sweepStaging .healthy cutoff true s).1 ≠ u.chunks s := by
  intro heq
  rw [← heq] at hchunk
  have hleft := (List.mem_filter.1 hchunk).1
  rw [heq] at hchunk
  exact sweepChunks_healthy (Upload.chunk_listed hchunk) hold 0 0 s hleft

/--
Whatever the store holds and however it answers, a sweep leaves an upload with a chunk
after the cutoff all its chunks, exactly when it has none as old as the cutoff.
-/
theorem sweep_keeps_live_upload_iff (s : Holding) (cutoff : Int) (u : Upload) :
    (u.Live cutoff s → ∀ env doDelete,
        u.chunks (sweepStaging env cutoff doDelete s).1 = u.chunks s) ↔
      u.OneAge cutoff s := by
  constructor
  · intro hkept old hold young hyoung hafter
    by_contra hbefore
    exact Upload.old_chunk_swept hold (not_lt.1 hbefore)
      (hkept ⟨young, hyoung, hafter⟩ .healthy true)
  · intro hage hlive env doDelete
    exact hage.chunks_kept hlive env doDelete

def slowUpload : Holding where
  objects := [⟨partKey "oci" "team/app" "5f" 0, [1], 10⟩,
    ⟨partKey "oci" "team/app" "5f" 1, [2], 30⟩]
  distinct := by decide +kernel

theorem slow_upload_loses_its_start :
    (Upload.mk "oci" "team/app" "5f").Live 20 slowUpload ∧
      (Upload.mk "oci" "team/app" "5f").chunks (sweepStaging .healthy 20 true slowUpload).1 ≠
        (Upload.mk "oci" "team/app" "5f").chunks slowUpload ∧
      (Upload.mk "oci" "team/app" "5f").chunks (sweepStaging .healthy 20 true slowUpload).1 =
        [⟨partKey "oci" "team/app" "5f" 1, [2], 30⟩] := by
  refine ⟨⟨⟨partKey "oci" "team/app" "5f" 1, [2], 30⟩, ?_, by decide⟩, ?_, ?_⟩
  · decide +kernel
  · decide +kernel
  · decide +kernel

end FondacoFormal.Formats.Oci
