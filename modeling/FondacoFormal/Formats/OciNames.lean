import FondacoFormal.Formats.Oci

/-!
# Names of an OCI repository

Where a blob and a manifest are hosted, and why two of them never share a path: a
digest and a tag have no slash, so the last two segments say what is hosted and
the rest is the repository.
-/

namespace FondacoFormal.Formats.Oci

open Library

/-! ## Paths -/

theorem blobPath_toList (repo digest : String) : (blobPath repo digest).toList =
    (("v2/".toList ++ repo.toList) ++ '/' :: "blobs".toList) ++ '/' :: digest.toList := by
  simp [blobPath, String.toList_append]

theorem manifestPath_toList (repo reference : String) : (manifestPath repo reference).toList =
    (("v2/".toList ++ repo.toList) ++ '/' :: "manifests".toList) ++ '/' :: reference.toList := by
  simp [manifestPath, String.toList_append]

variable {repo repo' reference reference' : String}

section

variable (hslash : '/' ∉ reference.toList) (hslash' : '/' ∉ reference'.toList)

include hslash hslash'

/-- A path says which repository it is in, what is hosted there, and under which reference. -/
theorem segments_unique {kind kind' : List Char} (hkind : '/' ∉ kind) (hkind' : '/' ∉ kind')
    (heq : (("v2/".toList ++ repo.toList) ++ '/' :: kind) ++ '/' :: reference.toList =
      (("v2/".toList ++ repo'.toList) ++ '/' :: kind') ++ '/' :: reference'.toList) :
    repo = repo' ∧ kind = kind' ∧ reference = reference' := by
  obtain ⟨hstart, hreference⟩ := Text.last_segment_unique hslash hslash' heq
  obtain ⟨hrepo, hkinds⟩ := Text.last_segment_unique hkind hkind' hstart
  refine ⟨String.toList_injective (List.append_cancel_left hrepo), hkinds, ?_⟩
  exact String.toList_injective hreference

theorem blobPath_injective (heq : blobPath repo reference = blobPath repo' reference') :
    repo = repo' ∧ reference = reference' := by
  have hlists := congrArg String.toList heq
  rw [blobPath_toList, blobPath_toList] at hlists
  obtain ⟨hrepo, -, hreference⟩ :=
    segments_unique hslash hslash' (by decide) (by decide) hlists
  exact ⟨hrepo, hreference⟩

theorem manifestPath_injective (heq : manifestPath repo reference = manifestPath repo' reference') :
    repo = repo' ∧ reference = reference' := by
  have hlists := congrArg String.toList heq
  rw [manifestPath_toList, manifestPath_toList] at hlists
  obtain ⟨hrepo, -, hreference⟩ :=
    segments_unique hslash hslash' (by decide) (by decide) hlists
  exact ⟨hrepo, hreference⟩

theorem blobPath_ne_manifestPath : blobPath repo reference ≠ manifestPath repo' reference' := by
  intro heq
  have hlists := congrArg String.toList heq
  rw [blobPath_toList, manifestPath_toList] at hlists
  have hkinds := (segments_unique hslash hslash' (by decide) (by decide) hlists).2.1
  exact absurd hkinds (by decide)

end

/-! ## Digests and tags -/

def hexDigits (s : String) : Bool :=
  s.toList.all fun c => c.isDigit || ('a' ≤ c && c ≤ 'f')

theorem parseDigest_eq_some {d algo hex : String} (hparse : parseDigest d = some (algo, hex)) :
    (algo = "sha256" ∨ algo = "sha512") ∧ (hexDigits hex = true ∧ hex ≠ "") ∧
      d = algo ++ ":" ++ hex := by
  simp only [parseDigest] at hparse
  cases hrest : d.toList.drop (d.toList.takeWhile fun c => c ≠ ':').length with
  | nil => rw [hrest] at hparse; cases hparse
  | cons c digits =>
    have hsplit := Text.eq_of_drop_takeWhile hrest
    rw [hrest] at hparse
    generalize d.toList.takeWhile (fun c => decide (c ≠ ':')) = before at hparse hsplit
    dsimp only at hparse
    generalize hwant : (if before = "sha256".toList then 64 else _) = want at hparse
    split at hparse
    · cases hparse
    · next hlength =>
        split at hparse
        · next hdigits =>
            cases hparse
            refine ⟨?_, ⟨by rw [hexDigits, String.toList_ofList]; exact hdigits, ?_⟩, ?_⟩
            · by_cases hfirst : before = "sha256".toList
              · exact .inl (by rw [hfirst, String.ofList_toList])
              · by_cases hsecond : before = "sha512".toList
                · exact .inr (by rw [hsecond, String.ofList_toList])
                · rw [if_neg hfirst, if_neg hsecond] at hwant
                  simp [← hwant] at hlength
            · rintro hempty
              have hnil : digits = [] := by simpa using congrArg String.toList hempty
              subst hnil
              simp only [List.length_nil, Bool.or_eq_true, decide_eq_true_eq, not_or] at hlength
              omega
            · apply String.toList_injective
              rw [hsplit]
              simp [String.toList_append]
        · cases hparse

variable {hex : String}

section

variable (hhex : hexDigits hex = true)

include hhex

theorem hexDigits_chars {c : Char} (hmem : c ∈ hex.toList) :
    c.isDigit = true ∨ 'a' ≤ c ∧ c ≤ 'f' := by
  have hchar := List.all_eq_true.1 hhex c hmem
  simpa using hchar

theorem slash_not_mem_hexDigits : '/' ∉ hex.toList := by
  intro hmem
  rcases hexDigits_chars hhex hmem with hdigit | hletter
  · exact absurd hdigit (by decide)
  · exact absurd hletter (by decide)

theorem not_slash_of_hexDigits : '/' ∉ ("sha256:" ++ hex).toList := by
  rw [String.toList_append, List.mem_append]
  rintro (hmem | hmem)
  · exact absurd hmem (by decide)
  · exact slash_not_mem_hexDigits hhex hmem

end

theorem parseDigest_chars {d : String} (hparse : (parseDigest d).isSome = true) :
    '/' ∉ d.toList ∧ ':' ∈ d.toList := by
  obtain ⟨⟨algo, hex⟩, hsome⟩ := Option.isSome_iff_exists.1 hparse
  obtain ⟨halgo, ⟨hhex, -⟩, rfl⟩ := parseDigest_eq_some hsome
  constructor
  · rw [String.toList_append, String.toList_append, List.mem_append, List.mem_append]
    rintro ((hmem | hmem) | hmem)
    · rcases halgo with rfl | rfl <;> exact absurd hmem (by decide)
    · exact absurd hmem (by decide)
    · exact slash_not_mem_hexDigits hhex hmem
  · simp [String.toList_append]

theorem validTag_chars {tag : String} (htag : validTag tag = true) :
    '/' ∉ tag.toList ∧ ':' ∉ tag.toList := by
  rw [validTag] at htag
  cases hchars : tag.toList with
  | nil => simp
  | cons first rest =>
    rw [hchars] at htag
    simp only [Bool.and_eq_true, Bool.or_eq_true, decide_eq_true_eq, List.all_eq_true] at htag
    obtain ⟨⟨-, hfirst⟩, hrest⟩ := htag
    constructor
    all_goals
      intro hmem
      rcases List.mem_cons.1 hmem with heq | hlater
      · rw [← heq] at hfirst
        exact absurd hfirst (by decide)
      · exact absurd (hrest _ hlater) (by decide)

theorem toLower_of_hexDigits (hhex : hexDigits hex = true) :
    hex.toList.map Char.toLower = hex.toList := by
  refine (List.map_congr_left fun c hmem => ?_).trans (List.map_id _)
  have hchar := hexDigits_chars hhex hmem
  refine dif_neg fun hupper => ?_
  rcases hchar with hdigit | hletter
  · simp [Char.isDigit, UInt32.le_iff_toNat_le] at *
    omega
  · simp [Char.le_def, UInt32.le_iff_toNat_le] at *
    omega

theorem equalFold_hexDigits {a b : String} (ha : hexDigits a = true) (hb : hexDigits b = true)
    (hfold : Storage.equalFold a b = true) : a = b := by
  rw [Storage.equalFold, decide_eq_true_eq, toLower_of_hexDigits ha, toLower_of_hexDigits hb]
    at hfold
  exact String.toList_injective hfold

end FondacoFormal.Formats.Oci
