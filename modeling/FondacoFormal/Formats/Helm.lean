import FondacoFormal.Formats.Hosted
import FondacoFormal.Formats.Oci

/-!
# Helm charts

Reading and publishing chart archives.  A publish takes name and version from
`Chart.yaml`; a read takes them from the file name, cut at the first dash that a
digit follows.
-/

namespace FondacoFormal.Formats.Helm

open Library Api Server

/-! ## File names -/

def splitVersion : List Char → Option (List Char × List Char)
  | [] => none
  | c :: rest =>
    if c = '-' && rest.head?.any Char.isDigit then some ([], rest)
    else (splitVersion rest).map fun parts => (c :: parts.1, parts.2)

/-- `splitChartFile`. -/
def splitChartFile (file : String) : String × String :=
  let base := Text.trimSuffix (Text.trimSuffix file ".prov") ".tgz"
  match splitVersion base.toList with
  | some (name, version) => (String.ofList name, String.ofList version)
  | none => (base, "")

/-- `chartFile`. -/
def chartFile (name version : String) : String :=
  if version = "" then name ++ ".tgz" else name ++ "-" ++ version ++ ".tgz"

/-! ## Reading -/

/-- `chartIntent`. -/
def chartIntent (requestPath file remoteURL : String) : Except Failure Intent :=
  if file = "" || Text.holds file '/' then
    .error (.wrapping .notFound ("not a chart file: " ++ requestPath.quote))
  else
    let (name, version) := splitChartFile file
    if name = "" then .error (.wrapping .notFound ("not a chart file name: " ++ file.quote))
    else
      .ok {
        kind := .artifact
        coord := ⟨"helm", name, version⟩
        remotePath := requestPath
        remoteURL := remoteURL
        contentType := if Text.hasSuffix file ".prov" then "text/plain; charset=utf-8"
          else "application/gzip" }

/-- A path under `remote/`: the encoded location of a chart and its file name. -/
def remoteIntent (decodeLocation : String → Option String) (p : String) :
    Except Failure Intent :=
  match Text.cut (Text.trimPrefix p "remote/") '/' with
  | none => .error (.wrapping .notFound ("not a chart location path: " ++ p.quote))
  | some (encoded, file) =>
    if encoded = "" || file = "" || Text.holds file '/' then
      .error (.wrapping .notFound ("not a chart location path: " ++ p.quote))
    else
      match decodeLocation encoded with
      | none => .error (.wrapping .notFound ("invalid chart location in " ++ p.quote))
      | some location => chartIntent p file location

/-- `Parse`; `decodeLocation` reads an encoded absolute URL. -/
def parse (decodeLocation : String → Option String) (r : ReadRequest) : Except Failure Intent :=
  let p := Text.trimPrefix r.path "/"
  if p = "" || Text.contains p ".." then
    .error (.wrapping .notFound ("invalid path " ++ p.quote))
  else if p = "index.yaml" then
    .ok {
      kind := .metadata
      coord := ⟨"helm", "index.yaml", ""⟩
      cacheTTL := 300
      remotePath := "index.yaml"
      contentType := "application/x-yaml" }
  else if p = "api/charts" || Text.hasPrefix p "api/charts/" then
    .ok {
      kind := .search
      coord := ⟨"helm", if p = "api/charts" then "" else Text.trimPrefix p "api/charts/", ""⟩
      remotePath := p
      contentType := "application/json" }
  else if Text.hasPrefix p "charts/" then chartIntent p (Text.trimPrefix p "charts/") ""
  else if Text.hasPrefix p "remote/" then remoteIntent decodeLocation p
  else .error (.wrapping .notFound ("unsupported helm path: " ++ p.quote))

/-! ## Publishing -/

structure TarEntry where
  regular : Bool
  name : String
  content : Except String Bytes

/-- What a tar reader finds: entries, and the error the stream ends with, if any. -/
structure TarStream where
  entries : List TarEntry
  broken : Option String := none

structure Decoders where
  /-- `ParseMultipartForm`: the files of the form by field. -/
  form : Request → Except String (List (String × Except String Bytes))
  /-- `gzip.NewReader` and `tar.NewReader`. -/
  untar : Bytes → Except String TarStream
  /-- `yaml.Unmarshal` into the struct of `name` and `version`. -/
  yamlNames : Bytes → Except String (String × String)

/-- `maxChartSize`. -/
def maxChartSize : Nat :=
  100 * 2 ^ 20

/-- `chartMeta`. -/
structure ChartMeta where
  name : String
  version : String
  raw : Bytes
  deriving DecidableEq

/-- `formFile`. -/
def formFile (files : List (String × Except String Bytes)) (field : String) :
    Except Failure Bytes :=
  match files.find? fun file => file.1 = field with
  | none => .error (refusal .badRequest ("no " ++ field.quote ++ " in the upload"))
  | some (_, .error error) =>
    .error (refusal .badRequest ("reading " ++ field.quote ++ ": " ++ error))
  | some (_, .ok body) =>
    if maxChartSize < body.length then
      .error (refusal .badRequest (field ++ " exceeds " ++ toString maxChartSize ++ " bytes"))
    else .ok body

/-- `readUpload`: the archive and its provenance file. -/
def readUpload (d : Decoders) (r : Request) : Except Failure (Bytes × Bytes) :=
  if Text.hasPrefix r.headers.contentType.val "multipart/form-data" then
    match d.form r with
    | .error error => .error (refusal .badRequest ("reading the upload: " ++ error))
    | .ok files =>
      (formFile files "chart").map fun chart =>
        (chart, (formFile files "prov").toOption.getD [])
  else if maxChartSize < r.body.length then
    .error (refusal .badRequest ("chart exceeds " ++ toString maxChartSize ++ " bytes"))
  else if r.body = [] then .error (refusal .badRequest "empty upload")
  else .ok (r.body, [])

/-- `Chart.yaml` at the root of the chart's own directory. -/
def isChartYaml (entry : TarEntry) : Bool :=
  entry.regular &&
    match Text.split (Pipeline.pathClean entry.name) '/' with
    | [_, file] => file = "Chart.yaml"
    | _ => false

/-- `chartMetadata`. -/
def chartMetadata (d : Decoders) (archive : Bytes) : Except Failure ChartMeta :=
  match d.untar archive with
  | .error error => .error (refusal .badRequest ("not a gzip archive: " ++ error))
  | .ok stream =>
    match stream.entries.find? isChartYaml, stream.broken with
    | some entry, _ =>
      match entry.content with
      | .error error => .error (refusal .badRequest ("reading Chart.yaml: " ++ error))
      | .ok content =>
        -- the reader stops after 1 MiB
        match d.yamlNames (content.take (2 ^ 20)) with
        | .error error =>
          .error (refusal .badRequest ("Chart.yaml is not YAML: " ++ error))
        | .ok (name, version) => .ok ⟨name, version, content.take (2 ^ 20)⟩
    | none, some error => .error (refusal .badRequest ("not a tar archive: " ++ error))
    | none, none => .error (refusal .badRequest "the archive has no Chart.yaml")

structure Upload where
  chart : Bytes
  prov : Bytes
  chartMeta : ChartMeta
  deriving DecidableEq

/-- The part of `HandlePublish` before anything is stored. -/
def upload (d : Decoders) (r : Request) : Except Failure Upload :=
  if r.method = "DELETE" then
    .error (refusal .forbidden ("a published chart version is not removed, it is quarantined " ++
      "— the bytes somebody deployed do not quietly stop existing (invariant 4). Use the " ++
      "quarantine API to take it out of circulation"))
  else
    let p := Text.trim (Oci.textOf r.path) '/'
    if p ≠ "api/charts" then
      .error (refusal .badRequest ("charts are uploaded to POST /api/charts, not " ++ p.quote))
    else do
      let (chart, prov) ← readUpload d r
      let chartMeta ← chartMetadata d chart
      if chartMeta.name = "" || chartMeta.version = "" then
        .error (refusal .badRequest "Chart.yaml has no name or version")
      else .ok ⟨chart, prov, chartMeta⟩

/-- What an upload publishes: the archive, its `Chart.yaml` for the index, its signature. -/
def Upload.publications (u : Upload) : List (String × Publication) :=
  let coord : PackageCoordinate := ⟨"helm", u.chartMeta.name, u.chartMeta.version⟩
  let file := chartFile u.chartMeta.name u.chartMeta.version
  [("stage chart",
      { path := "charts/" ++ file
        coord := coord
        body := u.chart
        metadata := some { rest := [("ecosystem", "helm")] } }),
    ("stage chart",
      { path := "-/hosted/" ++ u.chartMeta.name ++ "/" ++ u.chartMeta.version ++ ".yaml"
        coord := coord
        body := u.chartMeta.raw
        mutable := true })] ++
  if u.prov = [] then []
  else [("stage chart", { path := "charts/" ++ file ++ ".prov", coord := coord, body := u.prov })]

/-- `HandlePublish`; `reindex` is the module's `Reindex`, which it runs itself. -/
def handlePublish (d : Decoders) (sha256 : Bytes → String) (reindex : Handling) (feed : String)
    (r : Request) : Handling :=
  match upload d r with
  | .error error => .fail error
  | .ok u => publishAll sha256 feed reindex u.publications

/-! ## The coordinate a chart is read under -/

def dashDigit (s : List Char) : Bool :=
  (splitVersion s).isSome

/-- The version starts with a digit, and no dash of the name has a digit after it. -/
def Splits (name version : String) : Prop :=
  version.toList.head?.any Char.isDigit = true ∧ dashDigit name.toList = false
  deriving Decidable

theorem splitVersion_append {name version : List Char}
    (hversion : version.head?.any Char.isDigit = true) (hname : splitVersion name = none) :
    splitVersion (name ++ '-' :: version) = some (name, version) := by
  induction name with
  | nil => simp [splitVersion, hversion]
  | cons c rest ih =>
    simp only [splitVersion] at hname
    split at hname
    · simp at hname
    · rename_i hcut
      have hrest := ih (Option.map_eq_none_iff.mp hname)
      have hnot : ¬ (c = '-' && (rest ++ '-' :: version).head?.any Char.isDigit) = true := by
        intro h
        cases rest with
        | nil => simp [Char.isDigit] at h
        | cons d more => exact hcut h
      rw [List.cons_append, splitVersion, if_neg hnot, hrest]
      rfl

theorem splitVersion_eq_some {s name version : List Char}
    (h : splitVersion s = some (name, version)) :
    s = name ++ '-' :: version ∧ version.head?.any Char.isDigit = true ∧
      splitVersion name = none := by
  induction s generalizing name with
  | nil => simp [splitVersion] at h
  | cons c rest ih =>
    simp only [splitVersion] at h
    split at h
    · rename_i hcut
      simp only [Bool.and_eq_true, decide_eq_true_eq] at hcut
      simp only [Option.some.injEq, Prod.mk.injEq] at h
      obtain ⟨rfl, rfl⟩ := h
      exact ⟨by rw [hcut.1]; rfl, hcut.2, rfl⟩
    · rename_i hcut
      simp only [Option.map_eq_some_iff, Prod.mk.injEq] at h
      obtain ⟨⟨first, second⟩, hrest, rfl, rfl⟩ := h
      obtain ⟨rfl, hdigit, hnone⟩ := ih hrest
      refine ⟨rfl, hdigit, ?_⟩
      have hnot : ¬ (c = '-' && first.head?.any Char.isDigit) = true := by
        intro hstart
        apply hcut
        cases first with
        | nil => simp at hstart
        | cons d more => exact hstart
      rw [splitVersion, if_neg hnot, hnone]
      rfl

theorem chartFile_base {name version : String} (hversion : version ≠ "") :
    Text.trimSuffix (Text.trimSuffix (chartFile name version) ".prov") ".tgz" =
      name ++ "-" ++ version := by
  have hprov : Text.hasSuffix (name ++ "-" ++ version ++ ".tgz") ".prov" = false := by
    rw [Bool.eq_false_iff]
    intro h
    obtain ⟨front, hfront⟩ := List.isSuffixOf_iff_suffix.mp h
    have hends := congrArg List.getLast? hfront
    simp only [String.toList_append, List.getLast?_append] at hends
    exact absurd hends (by simp)
  rw [chartFile, if_neg hversion, Text.trimSuffix_of_not hprov, Text.trimSuffix_append]

/-- The split gives name and version back exactly when the file name is not ambiguous. -/
theorem splitChartFile_chartFile (name : String) {version : String} (hversion : version ≠ "") :
    splitChartFile (chartFile name version) = (name, version) ↔ Splits name version := by
  unfold splitChartFile
  rw [chartFile_base hversion]
  dsimp only
  have hchars : (name ++ "-" ++ version).toList = name.toList ++ '-' :: version.toList := by
    simp
  rw [hchars]
  constructor
  · intro h
    split at h
    · rename_i first second hsplit
      simp only [Prod.mk.injEq] at h
      obtain ⟨rfl, rfl⟩ := h
      obtain ⟨-, hdigit, hnone⟩ := splitVersion_eq_some hsplit
      exact ⟨by simpa using hdigit, by simp [dashDigit, hnone]⟩
    · simp only [Prod.mk.injEq] at h
      exact absurd h.2.symm hversion
  · rintro ⟨hdigit, hname⟩
    rw [splitVersion_append hdigit (by simpa [dashDigit] using hname)]
    simp

theorem upload_named {d : Decoders} {r : Request} {u : Upload} (hupload : upload d r = .ok u) :
    u.chartMeta.name ≠ "" ∧ u.chartMeta.version ≠ "" := by
  unfold upload at hupload
  split at hupload
  · simp at hupload
  · dsimp only at hupload
    split at hupload
    · simp at hupload
    · obtain ⟨⟨chart, prov⟩, -, hread⟩ := Fallible.bind_eq_ok.mp hupload
      obtain ⟨chartMeta, -, hmeta⟩ := Fallible.bind_eq_ok.mp hread
      dsimp only at hmeta
      split at hmeta
      · simp at hmeta
      · rename_i hnamed
        cases hmeta
        simpa using hnamed

theorem parse_chartFile_coord {decodeLocation : String → Option String} {method file : String}
    {intent : Intent}
    (hparse : parse decodeLocation ⟨method, "/charts/" ++ file, ""⟩ = .ok intent) :
    intent.coord = ⟨"helm", (splitChartFile file).1, (splitChartFile file).2⟩ := by
  have hpath : Text.trimPrefix ("/charts/" ++ file) "/" = "charts/" ++ file := by
    rw [show "/charts/" ++ file = "/" ++ ("charts/" ++ file) by rw [← String.append_assoc]; rfl,
      Text.trimPrefix_append]
  have hcharts : Text.hasPrefix ("charts/" ++ file) "charts/" = true :=
    Text.hasPrefix_append "charts/" file
  have hindex : "charts/" ++ file ≠ "index.yaml" := Text.ne_of_not_hasPrefix (by decide) file
  have hsearch : ¬ (decide ("charts/" ++ file = "api/charts") ||
      Text.hasPrefix ("charts/" ++ file) "api/charts/") = true := by
    rw [Text.hasPrefix_append_of_not (by decide) (by decide), Bool.or_false, decide_eq_true_iff]
    exact Text.ne_of_not_hasPrefix (by decide) file
  unfold parse at hparse
  dsimp only at hparse
  rw [hpath, if_neg hindex, if_neg hsearch, if_pos hcharts,
    Text.trimPrefix_append, chartIntent] at hparse
  split at hparse
  · simp at hparse
  · split at hparse
    · simp at hparse
    · dsimp only at hparse
      split at hparse
      · simp at hparse
      · cases hparse
        rfl

/--
The name a chart is published under comes back from its file name exactly when the
version starts with a digit and no dash of the name has a digit after it; then the file
is read under the coordinate it was published with.
-/
theorem chart_coordinate_read_back_iff {d : Decoders} {r : Request} {u : Upload}
    (hupload : upload d r = .ok u) (decodeLocation : String → Option String) :
    (splitChartFile (chartFile u.chartMeta.name u.chartMeta.version) =
        (u.chartMeta.name, u.chartMeta.version) ∧
      ∀ method intent,
        parse decodeLocation
          ⟨method, "/charts/" ++ chartFile u.chartMeta.name u.chartMeta.version, ""⟩ =
            .ok intent →
        intent.coord = ⟨"helm", u.chartMeta.name, u.chartMeta.version⟩) ↔
      Splits u.chartMeta.name u.chartMeta.version := by
  have hsplit := splitChartFile_chartFile u.chartMeta.name (upload_named hupload).2
  constructor
  · rintro ⟨hback, -⟩
    exact hsplit.mp hback
  · intro h
    have hback := hsplit.mpr h
    refine ⟨hback, ?_⟩
    intro method intent hparse
    rw [parse_chartFile_coord hparse, hback]

def labelled (name version : String) : Decoders where
  form _ := .ok []
  untar _ := .ok ⟨[⟨true, "chart/Chart.yaml", .ok [1]⟩], none⟩
  yamlNames _ := .ok (name, version)

def chartPost : Request :=
  ⟨"POST", validMethod_post, "/api/charts".toUTF8.toList, [], noHeaders, [1]⟩

theorem chart_coordinate_read_back_plain :
    upload (labelled "nginx-ingress" "4.1.0") chartPost =
        .ok ⟨[1], [], ⟨"nginx-ingress", "4.1.0", [1]⟩⟩ ∧
      splitChartFile (chartFile "nginx-ingress" "4.1.0") = ("nginx-ingress", "4.1.0") := by
  have hupload : upload (labelled "nginx-ingress" "4.1.0") chartPost =
      .ok ⟨[1], [], ⟨"nginx-ingress", "4.1.0", [1]⟩⟩ := by
    decide +kernel
  exact ⟨hupload, ((chart_coordinate_read_back_iff hupload fun _ => none).mpr (by decide)).1⟩

/-- A version with a leading `v` is published, and its file is read under another name. -/
theorem leading_v_read_under_other_name :
    let sha256 : Bytes → String := fun _ => "d"
    let core := quietCore sha256
    Accepts core "charts" core.publish
        (handlePublish (labelled "app" "v1.2.0") sha256 created "charts" chartPost) {} ∧
      splitChartFile (chartFile "app" "v1.2.0") ≠ ("app", "v1.2.0") ∧
      (parse (fun _ => none) ⟨"GET", "/charts/app-v1.2.0.tgz", ""⟩).toOption.map Intent.coord =
        some ⟨"helm", "app-v1.2.0", ""⟩ := by
  refine ⟨accepts_of_answers ?_, ?_, ?_⟩ <;> decide +kernel

end FondacoFormal.Formats.Helm
