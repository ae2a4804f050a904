import FondacoFormal.Formats.OciClosure

/-!
# Upload sessions side by side

The chunks of an upload are found by the beginning of their keys: the feed, the repository and the
id of the session.
-/

namespace FondacoFormal.Formats.Oci

open Library Server

/-- A request to the store reads, counts, overwrites or deletes the object. -/
def Touches (key : String) : Ask → Prop
  | .stat other | .get other | .put other _ _ | .delete other => other = key
  | .list start => startsWith start key = true
  | .manifests _ | .draw => False

structure Session where
  feed : String
  repo : String
  uploadID : String
  named : validRepo repo = none
  valid : validUploadID uploadID = true

namespace Session

def start (s : Session) : String :=
  uploadKeyStart s.feed s.repo s.uploadID

def key (s : Session) (offset : Nat) : String :=
  partKey s.feed s.repo s.uploadID offset

/-- The store lists what it is asked for; no chunk of the session is touched. -/
def sparing (s : Session) : Conduct where
  asks what := ∀ offset, ¬ Touches (s.key offset) what
  hears
    | .list start, answer => ∀ parts : List (String × Nat), answer = .ok parts →
        ∀ part ∈ parts, startsWith start part.1 = true
    | _, _ => True
  publishes _ := True

/-- Chunk, completion and cancellation; a `POST` begins another session. -/
def Isolated (s t : Session) : Prop :=
  ∀ hash unmarshal path req, req.method ≠ "POST" →
    t.sparing.Keeps (dispatch hash unmarshal s.feed req path ⟨s.repo, .upload, s.uploadID⟩)

variable {s t : Session}

theorem start_key (s : Session) (offset : Nat) : startsWith s.start (s.key offset) = true := by
  rw [startsWith_iff, key, partKey, String.toList_append]
  exact List.prefix_append _ _

theorem slash_not_mem_offset {offset : Nat} :
    '/' ∉ List.replicate (16 - (toString offset).toList.length) '0' ++
      (toString offset).toList := by
  rw [List.mem_append, Nat.toString_eq_repr, Nat.toList_repr]
  rintro (hzero | hdigit)
  · exact absurd (List.eq_of_mem_replicate hzero) (by decide)
  · exact absurd (Nat.isDigit_of_mem_toDigits (by omega) (by omega) hdigit) (by decide)

/-- The beginning of a key ends with a slash, and no slash follows in a key. -/
theorem startsWith_of_key {offset : Nat} (hkey : startsWith s.start (t.key offset) = true) :
    startsWith s.start t.start = true := by
  rw [startsWith_iff] at hkey ⊢
  rcases List.prefix_or_prefix_of_prefix hkey (startsWith_iff.1 (start_key t offset)) with
    hstart | ⟨rest, hrest⟩
  · exact hstart
  · rcases List.eq_nil_or_concat rest with rfl | ⟨front, c, rfl⟩
    · rw [← hrest, List.append_nil]
    · have hslash := congrArg (fun text => text.reverse.head?) hrest
      rw [← hrest, key, partKey, String.toList_append] at hkey
      have hmem := ((List.prefix_append_right_inj _).1 hkey).subset (a := c) (by simp)
      rw [String.toList_ofList] at hmem
      have hc : c = '/' := by simpa [start, uploadKeyStart, String.toList_append] using hslash
      exact absurd (hc ▸ hmem) slash_not_mem_offset

theorem Isolated.not_startsWith (isolated : s.Isolated t) : startsWith s.start t.start ≠ true := by
  intro hstart
  have hsome : s.uploadID ≠ "" := by
    intro hempty
    have hvalid := s.valid
    rw [hempty] at hvalid
    exact absurd hvalid (by decide)
  have keeps : t.sparing.Keeps (deleteParts s.start (.respond ⟨204, [], []⟩)) := by
    simpa [dispatch, hsome, start] using isolated (fun _ => "") (fun _ => .error "") ""
      ⟨"DELETE", by decide, [], [], noHeaders, []⟩ (by decide)
  cases keeps with
  | ask hasks _ => exact hasks 0 (startsWith_trans hstart (start_key t 0))

theorem isolated_of_not_startsWith (hnot : startsWith s.start t.start ≠ true) : s.Isolated t := by
  have happart : ∀ key, startsWith s.start key = true → ∀ offset, key ≠ t.key offset := by
    rintro key hkey offset rfl
    exact hnot (startsWith_of_key hkey)
  have hlist : t.sparing.asks (.list s.start) := fun offset hkey => hnot (startsWith_of_key hkey)
  have hstage : ∀ body offset, t.sparing.asks (.put (s.key offset) body {}) :=
    fun body offset => happart _ (start_key s offset)
  have hparts : ∀ parts : List (String × Nat), t.sparing.hears (.list s.start) (.ok parts) →
      ∀ part ∈ parts, ∀ offset, part.1 ≠ t.key offset :=
    fun parts heard part hmem => happart _ (heard parts rfl part hmem)
  have completes : Completes t.sparing (fun _ => True) s.feed s.repo s.uploadID :=
    { lists := hlist
      parts := fun parts heard part hmem =>
        ⟨hparts parts heard part hmem, hparts parts heard part hmem, fun _ _ _ _ => trivial⟩
      empty := trivial
      commits := fun _ _ hex _ _ _ _ _ =>
        ⟨fun offset => ne_blobKey_of_staging (staging_partKey ..) hex, fun _ _ _ => trivial⟩ }
  intro hash unmarshal path req hpost
  rw [dispatch]
  split
  · next hmethod _ => exact absurd hmethod hpost
  · exact .fail _
  · split
    · exact .fail _
    · exact appendChunk_keeps hlist (hstage req.body)
  · split
    · exact .fail _
    · exact finishUpload_keeps completes (hstage req.body)
  · next hkind => cases hkind
  · exact .fail _
  · split
    · exact deleteParts_keeps hlist (.respond _) hparts
    · exact .fail _
  · exact .fail _

/-- The requests of one session leave the chunks of another alone exactly if the other's keys do
not begin with those of the first. -/
theorem isolated_iff (s t : Session) : s.Isolated t ↔ startsWith s.start t.start ≠ true :=
  ⟨Isolated.not_startsWith, isolated_of_not_startsWith⟩

/-- A repository may be named like a session of another. -/
theorem nested_sessions_meet : ∃ s t : Session,
    (s.feed, s.repo, s.uploadID) = ("hub", "a", "bbbbbbbb") ∧
      (t.feed, t.repo, t.uploadID) = ("hub", "a/bbbbbbbb", "cccccccc") ∧ ¬ s.Isolated t := by
  refine ⟨⟨"hub", "a", "bbbbbbbb", by decide +kernel, by decide +kernel⟩,
    ⟨"hub", "a/bbbbbbbb", "cccccccc", by decide +kernel, by decide +kernel⟩, rfl, rfl, ?_⟩
  exact fun isolated => isolated.not_startsWith (by decide +kernel)

end Session

end FondacoFormal.Formats.Oci
