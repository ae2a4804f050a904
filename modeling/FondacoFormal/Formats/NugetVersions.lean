import FondacoFormal.Formats.Nuget

/-!
# Versions of NuGet packages

Clients address a package by the normal form of its version; a push stores it under the version
of its manifest in lower case.
-/

namespace FondacoFormal.Formats.Nuget

open Library Api Server

/-! ## The addresses of a client -/

def withoutZeros (part : String) : String :=
  if part.toList.all Char.isDigit then
    let digits := part.toList.dropWhile (· = '0')
    if digits = [] then "0" else String.ofList digits
  else part

/-- The normal form of a version: the numbers without leading zeros, three of them at least, a
fourth only if it is not zero, and no build metadata. -/
def normalForm (version : String) : String :=
  let bare := ((Text.cut version '+').map Prod.fst).getD version
  let (core, release) :=
    match Text.cut bare '-' with
    | some (core, release) => (core, "-" ++ release)
    | none => (bare, "")
  let numbers := (Text.split core '.').map withoutZeros
  let numbers := numbers ++ List.replicate (3 - numbers.length) "0"
  Text.join (if numbers.length = 4 && numbers.getLast? = some "0" then numbers.take 3 else numbers)
    "." ++ release

def packageFile (lid lver : String) : String := lid ++ "." ++ lver ++ ".nupkg"

def manifestFile (lid : String) : String := lid ++ ".nuspec"

/-- The request of a client for a file of the flat container that the service index names. -/
def clientRequest (rest : String) : ReadRequest :=
  ⟨"GET", "/" ++ ("v3/flat2/" ++ rest), ""⟩

/-- The request is read as one for this path. -/
def Reaches (rest path : String) : Prop :=
  ∃ intent, parse (clientRequest rest) = .ok intent ∧ intent.remotePath = path

/-- A client reaches the package and its manifest. -/
def Reachable (d : Decoders) (spec : Nuspec) : Prop :=
  let lid := d.lower spec.id
  let lver := d.lower (normalForm spec.version)
  Reaches (fileRest lid lver (packageFile lid lver)) (nupkgPath d spec.id spec.version) ∧
    Reaches (fileRest lid lver (manifestFile lid)) (nuspecPath d spec.id spec.version)

/-- An address of three parts, none of them empty, without a pair of dots. -/
def Plain (rest : String) : Prop :=
  Text.contains ("v3/flat2/" ++ rest) ".." = false ∧
    (Text.split rest '/').length = 3 ∧ (Text.split rest '/').any (fun s => s = "") = false

variable {lid lver nver file stored rest : String} {intent : Intent}

theorem parse_clientRequest :
    parse (clientRequest rest) = .ok intent ↔
      Text.contains ("v3/flat2/" ++ rest) ".." = false ∧
        parseFlatContainer ("v3/flat2/" ++ rest) rest = .ok intent := by
  cases hclean : Text.contains ("v3/flat2/" ++ rest) ".." with
  | false =>
    rw [clientRequest, parse_address (.inl rfl) hclean]
    simp
  | true =>
    simp [parse, clientRequest, Text.trimPrefix_append, hclean]

theorem reaches_iff :
    Reaches (fileRest lid nver file) (upstreamFlat ++ fileRest lid lver stored) ↔
      nver = lver ∧ file = stored ∧ Plain (fileRest lid lver stored) := by
  constructor
  · rintro ⟨intent, hparse, hpath⟩
    obtain ⟨hclean, hflat⟩ := parse_clientRequest.1 hparse
    have hrest : fileRest lid nver file = fileRest lid lver stored :=
      (String.append_right_inj _).1 ((parseFlatContainer_remotePath hflat).symm.trans hpath)
    have hasked := parseFlatContainer_file hflat
    rw [hrest] at hflat hclean
    obtain ⟨hcoord, hthree, hfull⟩ := parseFlatContainer_file hflat
    have hversion := (PackageCoordinate.mk.injEq ..).mp (hasked.1.symm.trans hcoord)
    obtain rfl := hversion.2.2
    exact ⟨rfl, (String.append_right_inj _).1 hrest, hclean, hthree, hfull⟩
  · rintro ⟨rfl, rfl, hclean, hthree, hfull⟩
    obtain ⟨intent, hflat⟩ := exists_parseFlatContainer (p := "v3/flat2/" ++ _) hthree hfull
    exact ⟨intent, parse_clientRequest.2 ⟨hclean, hflat⟩, parseFlatContainer_remotePath hflat⟩

/--
Clients reach every hosted package and its manifest, and packages of one id with one normal form
are stored at one path, exactly when every version is in normal form up to case and every path is
plain.
-/
theorem normal_versions_reachable_iff (d : Decoders) (hosted : List Push) :
    ((∀ p ∈ hosted, Reachable d p.spec) ∧
      ∀ p ∈ hosted, ∀ q ∈ hosted, d.lower p.spec.id = d.lower q.spec.id →
        d.lower (normalForm p.spec.version) = d.lower (normalForm q.spec.version) →
        nupkgPath d p.spec.id p.spec.version = nupkgPath d q.spec.id q.spec.version) ↔
      ∀ p ∈ hosted, d.lower (normalForm p.spec.version) = d.lower p.spec.version ∧
        Plain (fileRest (d.lower p.spec.id) (d.lower p.spec.version)
          (packageFile (d.lower p.spec.id) (d.lower p.spec.version))) ∧
        Plain (fileRest (d.lower p.spec.id) (d.lower p.spec.version)
          (manifestFile (d.lower p.spec.id))) := by
  have hreachable : ∀ spec : Nuspec, Reachable d spec ↔
      d.lower (normalForm spec.version) = d.lower spec.version ∧
        Plain (fileRest (d.lower spec.id) (d.lower spec.version)
          (packageFile (d.lower spec.id) (d.lower spec.version))) ∧
        Plain (fileRest (d.lower spec.id) (d.lower spec.version)
          (manifestFile (d.lower spec.id))) := by
    intro spec
    rw [Reachable, nupkgPath_eq, nuspecPath_eq, reaches_iff, reaches_iff]
    constructor
    · rintro ⟨⟨hversion, -, hpackage⟩, -, -, hmanifest⟩
      exact ⟨hversion, hpackage, hmanifest⟩
    · rintro ⟨hversion, hpackage, hmanifest⟩
      exact ⟨⟨hversion, by rw [hversion, packageFile], hpackage⟩, hversion, rfl, hmanifest⟩
  simp only [hreachable]
  refine ⟨And.left, fun hplain => ⟨hplain, ?_⟩⟩
  intro p hp q hq hid hversion
  rw [(hplain p hp).1, (hplain q hq).1] at hversion
  rw [nupkgPath, nupkgPath, hid, hversion]

def hub : Feed := { name := "hub", format := "nuget", externalURL := "https://r" }

def hash : Digests := ⟨fun _ => "d", fun _ => "d"⟩

def published (id version : String) : Handling :=
  handlePublish (labelled id version) hash hub packagePut

/-- A package with a version of two numbers is published; the request of a client for it is read
as one for another path, where a package with that version in normal form can be published too. -/
theorem short_version_unreachable :
    let core := quietCore hash.sha256
    let first := (published "contoso" "1.0").run core "hub" core.publish {}
    answers first = true ∧
      Accepts core "hub" core.publish (published "contoso" "1.0.0") first.1 ∧
      normalForm "1.0" = normalForm "1.0.0" ∧
      nupkgPath (labelled "contoso" "1.0") "contoso" "1.0" =
        "v3-flatcontainer/contoso/1.0/contoso.1.0.nupkg" ∧
      ¬ Reachable (labelled "contoso" "1.0") { id := "contoso", version := "1.0" } := by
  refine ⟨by decide +kernel, accepts_of_answers (by decide +kernel), by decide +kernel,
    by decide +kernel, ?_⟩
  intro hreachable
  have hpackage := hreachable.1
  rw [nupkgPath_eq] at hpackage
  exact absurd (reaches_iff.1 hpackage).1 (by decide +kernel)

/-- A package with an at sign in its version is published, and its coordinate is read back with
a part of the version in the name. -/
theorem at_sign_moves_into_name :
    let core := quietCore hash.sha256
    let d := labelled "contoso" "1@2"
    Accepts core "hub" core.publish (published "contoso" "1@2") {} ∧
      (push d hub packagePut).toOption.map
          (fun p => (p.publications d hash).map fun item => item.2.coord) =
        some (List.replicate 3 ⟨"nuget", "contoso", "1@2"⟩) ∧
      parseCoordinate (PackageCoordinate.text ⟨"nuget", "contoso", "1@2"⟩) =
        ⟨"nuget", "contoso@1", "2"⟩ :=
  ⟨accepts_of_answers (by decide +kernel), by decide +kernel, by decide +kernel⟩

end FondacoFormal.Formats.Nuget
