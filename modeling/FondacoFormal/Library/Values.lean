import FondacoFormal.Library.Fields
import FondacoFormal.Library.Json
import Mathlib.Data.String.Basic

/-!
# Decoded JSON documents

What a program holds after decoding a text into a value of any type: objects are maps, so of
two fields with one key the later stays, and numbers are numbers of the machine. A map is
written with its keys in order.
-/

namespace FondacoFormal.Library

structure Numbers where
  Number : Type
  read : String → Option Number
  write : Number → String
  wellFormed_write : ∀ n, Json.wellFormed (.num (write n)) = true
  read_write : ∀ n, read (write n) = some n

def Numbers.literal : Numbers where
  Number := { s : String // Json.wellFormed (.num s) = true }
  read s := if h : Json.wellFormed (.num s) = true then some ⟨s, h⟩ else none
  write n := n.1
  wellFormed_write n := n.2
  read_write n := dif_pos n.2

/-- A decoded value; the fields of an object in the order of their keys. -/
inductive Value (ν : Type) where
  | null
  | bool (b : Bool)
  | num (n : ν)
  | str (s : String)
  | arr (items : List (Value ν))
  | obj (fields : List (String × Value ν))

namespace Value

variable {ν : Type}

/-- The fields of a map; `nil` has none. -/
def fields : Value ν → List (String × Value ν)
  | obj fields => fields
  | _ => []

/-- `v.(map[string]any)`. -/
def asMap : Value ν → Option (List (String × Value ν))
  | obj fields => some fields
  | _ => none

/-- `v.(string)`. -/
def asText : Value ν → Option String
  | str s => some s
  | _ => none

/-! ## Decoding and encoding -/

section

variable (numbers : Numbers)

mutual

def ofJson : Json → Option (Value numbers.Number)
  | .null => some null
  | .bool b => some (bool b)
  | .num literal => (numbers.read literal).map num
  | .str s => some (str s)
  | .arr items => (itemsOfJson items).map arr
  | .obj fields => (fieldsOfJson fields).map fun pairs => obj (Fields.ofList pairs)

def itemsOfJson : List Json → Option (List (Value numbers.Number))
  | [] => some []
  | item :: rest =>
    match ofJson item, itemsOfJson rest with
    | some value, some values => some (value :: values)
    | _, _ => none

def fieldsOfJson : List (String × Json) → Option (List (String × Value numbers.Number))
  | [] => some []
  | (key, field) :: rest =>
    match ofJson field, fieldsOfJson rest with
    | some value, some values => some ((key, value) :: values)
    | _, _ => none

end

mutual

def toJson : Value numbers.Number → Json
  | null => .null
  | bool b => .bool b
  | num n => .num (numbers.write n)
  | str s => .str s
  | arr items => .arr (itemsToJson items)
  | obj fields => .obj (fieldsToJson fields)

def itemsToJson : List (Value numbers.Number) → List Json
  | [] => []
  | item :: rest => toJson item :: itemsToJson rest

def fieldsToJson : List (String × Value numbers.Number) → List (String × Json)
  | [] => []
  | (key, value) :: rest => (key, toJson value) :: fieldsToJson rest

end

/-- `json.Marshal`. -/
def marshal (value : Value numbers.Number) : List UInt8 :=
  Json.marshal (toJson numbers value)

/-- `json.Unmarshal` into a value of any type. -/
def unmarshal (bytes : List UInt8) : Option (Value numbers.Number) :=
  (Json.unmarshal bytes).bind (ofJson numbers)

/-- `json.Unmarshal` into a `map[string]any`; `null` leaves the map `nil`. -/
def unmarshalMap (bytes : List UInt8) : Option (Value numbers.Number) :=
  match unmarshal numbers bytes with
  | some null => some null
  | some (obj fields) => some (obj fields)
  | _ => none

end

/-! ## Canonical values -/

mutual

def Canonical : Value ν → Prop
  | arr items => CanonicalItems items
  | obj fields => Fields.Sorted fields ∧ CanonicalFields fields
  | _ => True

def CanonicalItems : List (Value ν) → Prop
  | [] => True
  | item :: rest => Canonical item ∧ CanonicalItems rest

def CanonicalFields : List (String × Value ν) → Prop
  | [] => True
  | (_, value) :: rest => Canonical value ∧ CanonicalFields rest

end

variable {items : List (Value ν)}

theorem canonicalItems_iff : CanonicalItems items ↔ ∀ item ∈ items, Canonical item := by
  induction items with
  | nil => simp [CanonicalItems]
  | cons item rest ih => simp [CanonicalItems, ih]

variable {fields : List (String × Value ν)}

theorem canonicalFields_iff : CanonicalFields fields ↔ ∀ field ∈ fields, Canonical field.2 := by
  induction fields with
  | nil => simp [CanonicalFields]
  | cons field rest ih => simp [CanonicalFields, ih]

theorem canonical_arr : Canonical (arr items) ↔ ∀ item ∈ items, Canonical item := by
  rw [Canonical, canonicalItems_iff]

theorem canonical_obj :
    Canonical (obj fields) ↔ Fields.Sorted fields ∧ ∀ field ∈ fields, Canonical field.2 := by
  rw [Canonical, canonicalFields_iff]

theorem canonical_str (s : String) : Canonical (str s : Value ν) :=
  trivial

theorem canonical_null : Canonical (null : Value ν) :=
  trivial

theorem Canonical.complete {fields more : List (String × Value ν)}
    (hfields : Canonical (obj fields)) (hmore : Canonical (obj more)) :
    Canonical (obj (Fields.complete fields more)) := by
  obtain ⟨hsorted, hall⟩ := canonical_obj.1 hfields
  refine canonical_obj.2 ⟨Fields.sorted_complete hsorted more, ?_⟩
  intro field hmem
  rcases Fields.mem_complete hmem with hmem | hmem
  · exact hall field hmem
  · exact (canonical_obj.1 hmore).2 field hmem

section

variable (hfields : Canonical (obj fields))

include hfields

theorem Canonical.lookup {key : String} {value : Value ν}
    (hlookup : fields.lookup key = some value) : Canonical value :=
  (canonical_obj.1 hfields).2 _ (Fields.mem_of_lookup hlookup)

theorem Canonical.set (key : String) {value : Value ν} (hvalue : Canonical value) :
    Canonical (obj (Fields.set key value fields)) := by
  obtain ⟨hsorted, hall⟩ := canonical_obj.1 hfields
  refine canonical_obj.2 ⟨Fields.sorted_set hsorted key value, ?_⟩
  intro field hmem
  rcases Fields.mem_set hmem with rfl | hmem
  · exact hvalue
  · exact hall field hmem

theorem Canonical.erase (key : String) : Canonical (obj (Fields.erase key fields)) := by
  obtain ⟨hsorted, hall⟩ := canonical_obj.1 hfields
  exact canonical_obj.2 ⟨Fields.sorted_erase hsorted key,
    fun field hmem => hall field (List.mem_of_mem_filter hmem)⟩

theorem Canonical.map (change : String → Value ν → Value ν)
    (hchange : ∀ key value, Canonical value → Canonical (change key value)) :
    Canonical (obj (fields.map fun field => (field.1, change field.1 field.2))) := by
  obtain ⟨hsorted, hall⟩ := canonical_obj.1 hfields
  refine canonical_obj.2 ⟨Fields.sorted_map change hsorted, ?_⟩
  intro field hmem
  obtain ⟨old, hold, rfl⟩ := List.mem_map.1 hmem
  exact hchange old.1 old.2 (hall old hold)

end

/-! ## The round trip -/

section

variable (numbers : Numbers)

mutual

theorem wellFormed_toJson (value : Value numbers.Number) :
    Json.wellFormed (toJson numbers value) = true := by
  cases value with
  | null | bool b => rfl
  | num n => rw [toJson, numbers.wellFormed_write]
  | str s => rfl
  | arr items => rw [toJson, Json.wellFormed, wellFormed_itemsToJson items]
  | obj fields => rw [toJson, Json.wellFormed, wellFormed_fieldsToJson fields]

theorem wellFormed_itemsToJson (items : List (Value numbers.Number)) :
    Json.wellFormedItems (itemsToJson numbers items) = true := by
  match items with
  | [] => rfl
  | item :: rest =>
    rw [itemsToJson, Json.wellFormedItems, wellFormed_toJson item, wellFormed_itemsToJson rest]
    rfl

theorem wellFormed_fieldsToJson (fields : List (String × Value numbers.Number)) :
    Json.wellFormedFields (fieldsToJson numbers fields) = true := by
  match fields with
  | [] => rfl
  | (key, value) :: rest =>
    rw [fieldsToJson, Json.wellFormedFields, wellFormed_toJson value,
      wellFormed_fieldsToJson rest]
    rfl

end

mutual

theorem ofJson_toJson (value : Value numbers.Number) (hvalue : Canonical value) :
    ofJson numbers (toJson numbers value) = some value := by
  cases value with
  | null | bool b => rfl
  | num n => rw [toJson, ofJson, numbers.read_write]; rfl
  | str s => rfl
  | arr items =>
    rw [toJson, ofJson, itemsOfJson_itemsToJson items (by simpa only [Canonical] using hvalue)]
    rfl
  | obj fields =>
    rw [Canonical] at hvalue
    rw [toJson, ofJson, fieldsOfJson_fieldsToJson fields hvalue.2, Option.map_some,
      Fields.ofList_of_sorted hvalue.1]

theorem itemsOfJson_itemsToJson (items : List (Value numbers.Number))
    (hitems : CanonicalItems items) :
    itemsOfJson numbers (itemsToJson numbers items) = some items := by
  match items with
  | [] => rfl
  | item :: rest =>
    rw [CanonicalItems] at hitems
    rw [itemsToJson, itemsOfJson, ofJson_toJson item hitems.1,
      itemsOfJson_itemsToJson rest hitems.2]

theorem fieldsOfJson_fieldsToJson (fields : List (String × Value numbers.Number))
    (hfields : CanonicalFields fields) :
    fieldsOfJson numbers (fieldsToJson numbers fields) = some fields := by
  match fields with
  | [] => rfl
  | (key, value) :: rest =>
    rw [CanonicalFields] at hfields
    rw [fieldsToJson, fieldsOfJson, ofJson_toJson value hfields.1,
      fieldsOfJson_fieldsToJson rest hfields.2]

end

mutual

theorem canonical_ofJson {json : Json} {value : Value numbers.Number}
    (hvalue : ofJson numbers json = some value) : Canonical value := by
  cases json with
  | null | bool b => cases hvalue; trivial
  | num literal =>
    rw [ofJson, Option.map_eq_some_iff] at hvalue
    obtain ⟨n, -, rfl⟩ := hvalue
    trivial
  | str s => cases hvalue; trivial
  | arr items =>
    rw [ofJson, Option.map_eq_some_iff] at hvalue
    obtain ⟨values, hvalues, rfl⟩ := hvalue
    exact canonical_arr.2 (canonical_itemsOfJson hvalues)
  | obj fields =>
    rw [ofJson, Option.map_eq_some_iff] at hvalue
    obtain ⟨pairs, hpairs, rfl⟩ := hvalue
    exact canonical_obj.2 ⟨Fields.sorted_ofList pairs, fun field hmem =>
      canonical_fieldsOfJson hpairs field (Fields.mem_ofList hmem)⟩

theorem canonical_itemsOfJson {items : List Json} {values : List (Value numbers.Number)}
    (hvalues : itemsOfJson numbers items = some values) : ∀ value ∈ values, Canonical value := by
  match items with
  | [] => cases hvalues; exact nofun
  | item :: rest =>
    rw [itemsOfJson] at hvalues
    split at hvalues
    · next first others hfirst hothers =>
        cases hvalues
        intro value hmem
        rcases List.mem_cons.1 hmem with rfl | hmem
        · exact canonical_ofJson hfirst
        · exact canonical_itemsOfJson hothers value hmem
    · cases hvalues

theorem canonical_fieldsOfJson {fields : List (String × Json)}
    {values : List (String × Value numbers.Number)}
    (hvalues : fieldsOfJson numbers fields = some values) :
    ∀ field ∈ values, Canonical field.2 := by
  match fields with
  | [] => cases hvalues; exact nofun
  | (key, json) :: rest =>
    rw [fieldsOfJson] at hvalues
    split at hvalues
    · next first others hfirst hothers =>
        cases hvalues
        intro field hmem
        rcases List.mem_cons.1 hmem with rfl | hmem
        · exact canonical_ofJson hfirst
        · exact canonical_fieldsOfJson hothers field hmem
    · cases hvalues

end

theorem unmarshal_marshal {value : Value numbers.Number} (hvalue : Canonical value) :
    unmarshal numbers (marshal numbers value) = some value := by
  rw [unmarshal, marshal, Json.unmarshal_marshal (wellFormed_toJson numbers value),
    Option.bind_some, ofJson_toJson numbers value hvalue]

theorem unmarshalMap_marshal {fields : List (String × Value numbers.Number)}
    (hfields : Canonical (obj fields)) :
    unmarshalMap numbers (marshal numbers (obj fields)) = some (obj fields) := by
  rw [unmarshalMap, unmarshal_marshal numbers hfields]

theorem canonical_unmarshalMap {bytes : List UInt8} {value : Value numbers.Number}
    (hvalue : unmarshalMap numbers bytes = some value) : Canonical value := by
  rw [unmarshalMap] at hvalue
  split at hvalue
  · cases hvalue
    exact canonical_null
  · next found hfound =>
      cases hvalue
      obtain ⟨json, -, hjson⟩ := Option.bind_eq_some_iff.1 hfound
      exact canonical_ofJson numbers hjson
  · cases hvalue

end

end Value

end FondacoFormal.Library
