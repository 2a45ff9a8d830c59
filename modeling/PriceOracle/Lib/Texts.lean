import Mathlib.Data.List.Basic
import Mathlib.Data.List.Nodup

/-! # Texts

The text functions of the scripts, and the grammar of the JSON they read. -/

/-! ## Texts as Python reads them

Whitespace and decimal digits are those of Unicode. -/

namespace PriceOracle.Lib.PyText

/-- The characters for which `str.isspace` holds. -/
def isSpace (c : Char) : Bool :=
  let n := c.toNat
  (9 ≤ n && n ≤ 13) || (0x1C ≤ n && n ≤ 0x20) || (0x2000 ≤ n && n ≤ 0x200A) ||
    n ∈ [0x85, 0xA0, 0x1680, 0x2028, 0x2029, 0x202F, 0x205F, 0x3000]

def stripStart (cs : List Char) : List Char := cs.dropWhile isSpace

def stripEnd (cs : List Char) : List Char := (stripStart cs.reverse).reverse

def blank (value : String) : Bool := value.toList.all isSpace

def strip (value : String) : String := String.ofList (stripEnd (stripStart value.toList))

/-- The zeros of the decimal digits of Unicode. -/
def decimalZeros : List Nat :=
  [0x30, 0x660, 0x6F0, 0x7C0, 0x966, 0x9E6, 0xA66, 0xAE6, 0xB66, 0xBE6, 0xC66, 0xCE6, 0xD66, 0xDE6,
    0xE50, 0xED0, 0xF20, 0x1040, 0x1090, 0x17E0, 0x1810, 0x1946, 0x19D0, 0x1A80, 0x1A90, 0x1B50,
    0x1BB0, 0x1C40, 0x1C50, 0xA620, 0xA8D0, 0xA900, 0xA9D0, 0xA9F0, 0xAA50, 0xABF0, 0xFF10, 0x104A0,
    0x10D30, 0x11066, 0x110F0, 0x11136, 0x111D0, 0x112F0, 0x11450, 0x114D0, 0x11650, 0x116C0,
    0x11730, 0x118E0, 0x11950, 0x11C50, 0x11D50, 0x11DA0, 0x16A60, 0x16AC0, 0x16B50, 0x1D7CE,
    0x1D7D8, 0x1D7E2, 0x1D7EC, 0x1D7F6, 0x1E140, 0x1E2F0, 0x1E950, 0x1FBF0]

def decimalValue (c : Char) : Option Nat :=
  (decimalZeros.find? fun first => first ≤ c.toNat && c.toNat < first + 10).map (c.toNat - ·)

/-- Digits with single underscores between them. `digit` says that the last character was one. -/
def readDigits : List Char → Nat → Bool → Option Nat
  | [], value, digit => if digit then some value else none
  | c :: rest, value, digit =>
    if c = '_' then if digit then readDigits rest value false else none
    else (decimalValue c).bind fun d => readDigits rest (value * 10 + d) true

/-- `int(value, 10)` -/
def readInt (value : String) : Option Int :=
  match stripEnd (stripStart value.toList) with
  | '+' :: rest => (readDigits rest 0 false).map Int.ofNat
  | '-' :: rest => (readDigits rest 0 false).map fun n => -Int.ofNat n
  | rest => (readDigits rest 0 false).map Int.ofNat

end PriceOracle.Lib.PyText

/-! ## JSON texts and the objects read from them

A text is scanned to a tree that has the members of every object as they are written, repeats
included. -/

namespace PriceOracle.Lib.JsonText

/-- A JSON value. A number with a fraction or an exponent is kept as it is written. -/
inductive Json
  | null
  | bool (value : Bool)
  | int (value : Int)
  | float (literal : String)
  | str (value : String)
  | arr (items : List Json)
  | obj (members : List (String × Json))

def get? {α : Type} (members : List (String × α)) (name : String) : Option α :=
  (members.find? fun member => member.1 == name).map Prod.snd

/-- A name that is there keeps its place and takes the new value. -/
def setItem {α : Type} (members : List (String × α)) (name : String) (value : α) :
    List (String × α) :=
  if members.any fun member => member.1 == name then
    members.map fun member => if member.1 = name then (name, value) else member
  else members ++ [(name, value)]

def dict {α : Type} (pairs : List (String × α)) : List (String × α) :=
  pairs.foldl (fun members pair => setItem members pair.1 pair.2) []

mutual

/-- The object that a tree stands for. -/
def build : Json → Json
  | .arr items => .arr (buildItems items)
  | .obj members => .obj (dict (buildMembers members))
  | .null => .null
  | .bool value => .bool value
  | .int value => .int value
  | .float literal => .float literal
  | .str value => .str value
termination_by structural tree => tree

def buildItems : List Json → List Json
  | [] => []
  | item :: rest => build item :: buildItems rest
termination_by structural items => items

def buildMembers : List (String × Json) → List (String × Json)
  | [] => []
  | (name, value) :: rest => (name, build value) :: buildMembers rest
termination_by structural members => members

end

mutual

/-- No object in the tree has two members of one name. -/
def once : Json → Bool
  | .arr items => onceItems items
  | .obj members => decide (members.map Prod.fst).Nodup && onceMembers members
  | .null | .bool _ | .int _ | .float _ | .str _ => true
termination_by structural tree => tree

def onceItems : List Json → Bool
  | [] => true
  | item :: rest => once item && onceItems rest
termination_by structural items => items

def onceMembers : List (String × Json) → Bool
  | [] => true
  | (_, value) :: rest => once value && onceMembers rest
termination_by structural members => members

end

section Dictionaries

variable {α : Type} {members pairs : List (String × α)}

theorem setItem_names (name : String) (value : α) :
    (setItem members name value).map Prod.fst =
      if name ∈ members.map Prod.fst then members.map Prod.fst
      else members.map Prod.fst ++ [name] := by
  have hany : (members.any fun member => member.1 == name) = true ↔
      name ∈ members.map Prod.fst := by
    simp only [List.any_eq_true,beq_iff_eq,List.mem_map]
  unfold setItem
  by_cases hmem : name ∈ members.map Prod.fst
  · rw [if_pos (hany.mpr hmem),if_pos hmem,List.map_map]
    refine List.map_congr_left fun member _ => ?_
    dsimp only [Function.comp]
    split_ifs with hname
    · exact hname.symm
    · rfl
  · rw [if_neg (hany.not.mpr hmem),if_neg hmem,List.map_append]
    rfl

theorem setItem_nodup (h : (members.map Prod.fst).Nodup) (name : String) (value : α) :
    ((setItem members name value).map Prod.fst).Nodup := by
  rw [setItem_names]
  split_ifs with hmem
  · exact h
  · exact List.nodup_append.mpr ⟨h,List.nodup_singleton _,by
      intro a ha b hb hab
      rw [hab,List.mem_singleton.mp hb] at ha
      exact hmem ha⟩

theorem dict_nodup (pairs : List (String × α)) : ((dict pairs).map Prod.fst).Nodup := by
  have hfold : ∀ members : List (String × α), (members.map Prod.fst).Nodup →
      ((pairs.foldl (fun members pair => setItem members pair.1 pair.2) members).map
        Prod.fst).Nodup := by
    induction pairs with
    | nil => exact fun _ h => h
    | cons pair rest ih => exact fun members h => ih _ (setItem_nodup h pair.1 pair.2)
  exact hfold [] List.nodup_nil

theorem setItem_new {name : String} (h : name ∉ members.map Prod.fst) (value : α) :
    setItem members name value = members ++ [(name,value)] := by
  refine if_neg fun hany => h ?_
  obtain ⟨member,hmem,hname⟩ := List.any_eq_true.mp hany
  exact List.mem_map.mpr ⟨member,hmem,beq_iff_eq.mp hname⟩

/-- Pairs with distinct names are a dictionary as they stand. -/
theorem dict_eq_self (h : (pairs.map Prod.fst).Nodup) : dict pairs = pairs := by
  have hfold : ∀ members : List (String × α), ((members ++ pairs).map Prod.fst).Nodup →
      pairs.foldl (fun members pair => setItem members pair.1 pair.2) members =
        members ++ pairs := by
    clear h
    induction pairs with
    | nil => exact fun members _ => (List.append_nil members).symm
    | cons pair rest ih =>
      intro members hnodup
      have hnew : pair.1 ∉ members.map Prod.fst := by
        intro hmem
        rw [List.map_append,List.map_cons,List.nodup_append] at hnodup
        exact hnodup.2.2 _ hmem _ List.mem_cons_self rfl
      rw [List.foldl_cons,setItem_new hnew,ih _ (by simpa using hnodup),List.append_assoc]
      rfl
  exact (hfold [] h).trans (List.nil_append _)

end Dictionaries

theorem buildMembers_names (members : List (String × Json)) :
    (buildMembers members).map Prod.fst = members.map Prod.fst := by
  induction members with
  | nil => rfl
  | cons member rest ih => simp [buildMembers,ih]

mutual

/-- Building loses nothing exactly where no object repeats a name. -/
theorem build_eq_iff : ∀ tree : Json, build tree = tree ↔ once tree = true
  | .arr items => by
    rw [build,once,Json.arr.injEq]
    exact buildItems_eq_iff items
  | .obj members => by
    rw [build,once,Json.obj.injEq,Bool.and_eq_true,decide_eq_true_iff]
    constructor
    · intro h
      have hnodup : (members.map Prod.fst).Nodup := h ▸ dict_nodup (buildMembers members)
      refine ⟨hnodup,(buildMembers_eq_iff members).mp ?_⟩
      rwa [dict_eq_self (by rwa [buildMembers_names])] at h
    · rintro ⟨hnodup,honce⟩
      rw [(buildMembers_eq_iff members).mpr honce]
      exact dict_eq_self hnodup
  | .null => by simp [build,once]
  | .bool _ => by simp [build,once]
  | .int _ => by simp [build,once]
  | .float _ => by simp [build,once]
  | .str _ => by simp [build,once]
termination_by structural tree => tree

theorem buildItems_eq_iff : ∀ items : List Json, buildItems items = items ↔ onceItems items = true
  | [] => by simp [buildItems,onceItems]
  | item :: rest => by
    rw [buildItems,onceItems,List.cons.injEq,Bool.and_eq_true,build_eq_iff item,
      buildItems_eq_iff rest]
termination_by structural items => items

theorem buildMembers_eq_iff : ∀ members : List (String × Json),
    buildMembers members = members ↔ onceMembers members = true
  | [] => by simp [buildMembers,onceMembers]
  | (name,value) :: rest => by
    rw [buildMembers,onceMembers,List.cons.injEq,Prod.mk.injEq,Bool.and_eq_true,
      build_eq_iff value,buildMembers_eq_iff rest]
    simp
termination_by structural members => members

end

mutual

/-- Equality of trees, member by member. -/
def same : Json → Json → Bool
  | .null, .null => true
  | .bool a, .bool b => a == b
  | .int a, .int b => a == b
  | .float a, .float b => a == b
  | .str a, .str b => a == b
  | .arr a, .arr b => sameItems a b
  | .obj a, .obj b => sameMembers a b
  | _, _ => false
termination_by structural tree => tree

def sameItems : List Json → List Json → Bool
  | [], [] => true
  | a :: as, b :: bs => same a b && sameItems as bs
  | _, _ => false
termination_by structural items => items

def sameMembers : List (String × Json) → List (String × Json) → Bool
  | [], [] => true
  | (name, a) :: as, (name', b) :: bs => name == name' && same a b && sameMembers as bs
  | _, _ => false
termination_by structural members => members

end

mutual

theorem same_iff : ∀ a b : Json, same a b = true ↔ a = b
  | .arr a, b => by cases b <;> simp [same,sameItems_iff a]
  | .obj a, b => by cases b <;> simp [same,sameMembers_iff a]
  | .null, b => by cases b <;> simp [same]
  | .bool _, b => by cases b <;> simp [same]
  | .int _, b => by cases b <;> simp [same]
  | .float _, b => by cases b <;> simp [same]
  | .str _, b => by cases b <;> simp [same]
termination_by structural a => a

theorem sameItems_iff : ∀ a b : List Json, sameItems a b = true ↔ a = b
  | [], b => by cases b <;> simp [sameItems]
  | a :: as, b => by cases b <;> simp [sameItems,same_iff a,sameItems_iff as]
termination_by structural a => a

theorem sameMembers_iff : ∀ a b : List (String × Json), sameMembers a b = true ↔ a = b
  | [], b => by cases b <;> simp [sameMembers]
  | (name,a) :: as, b => by
    cases b <;> simp [sameMembers,same_iff a,sameMembers_iff as,Prod.ext_iff]
termination_by structural a => a

end

instance : DecidableEq Json := fun a b => decidable_of_iff _ (same_iff a b)

def skipSpace (cs : List Char) : List Char :=
  cs.dropWhile fun c => c == ' ' || c == '\t' || c == '\n' || c == '\r'

def hexValue (c : Char) : Option Nat :=
  if '0' ≤ c ∧ c ≤ '9' then some (c.toNat - '0'.toNat)
  else if 'a' ≤ c ∧ c ≤ 'f' then some (c.toNat - 'a'.toNat + 10)
  else if 'A' ≤ c ∧ c ≤ 'F' then some (c.toNat - 'A'.toNat + 10)
  else none

def hexFour : List Char → Option (Nat × List Char)
  | a :: b :: c :: d :: rest => do
    let a ← hexValue a
    let b ← hexValue b
    let c ← hexValue c
    let d ← hexValue d
    some (((a * 16 + b) * 16 + c) * 16 + d, rest)
  | _ => none

/-- The code point after `\u`. A surrogate counts only as the first half of a pair: a text with
another one has no encoding. -/
def unicodeEscape (cs : List Char) : Option (Char × List Char) := do
  let (unit, rest) ← hexFour cs
  if 0xD800 ≤ unit ∧ unit < 0xDC00 then
    match rest with
    | '\\' :: 'u' :: rest =>
      let (low, rest) ← hexFour rest
      if 0xDC00 ≤ low ∧ low < 0xE000 then
        some (Char.ofNat (0x10000 + (unit - 0xD800) * 0x400 + (low - 0xDC00)), rest)
      else none
    | _ => none
  else if 0xDC00 ≤ unit ∧ unit < 0xE000 then none
  else some (Char.ofNat unit, rest)

/-- What follows a backslash. -/
def escape : List Char → Option (Char × List Char)
  | [] => none
  | c :: rest =>
    if c = '"' ∨ c = '\\' ∨ c = '/' then some (c, rest)
    else if c = 'b' then some (Char.ofNat 8, rest)
    else if c = 'f' then some (Char.ofNat 12, rest)
    else if c = 'n' then some ('\n', rest)
    else if c = 'r' then some ('\r', rest)
    else if c = 't' then some ('\t', rest)
    else if c = 'u' then unicodeEscape rest
    else none

/-- A string after its opening quote. Control characters must be escaped. -/
def scanChars : Nat → List Char → Option (List Char × List Char)
  | 0, _ => none
  | _ + 1, [] => none
  | fuel + 1, c :: rest =>
    if c = '"' then some ([], rest)
    else if c = '\\' then do
      let (escaped, rest) ← escape rest
      let (chars, rest) ← scanChars fuel rest
      some (escaped :: chars, rest)
    else if c.toNat < 0x20 then none
    else do
      let (chars, rest) ← scanChars fuel rest
      some (c :: chars, rest)

def digitsValue (digits : List Char) : Nat :=
  digits.foldl (fun value c => value * 10 + (c.toNat - '0'.toNat)) 0

/-- The digits before the point: a zero, or digits that do not begin with one. -/
def scanWhole : List Char → Option (List Char × List Char)
  | [] => none
  | c :: rest =>
    if c = '0' then some (['0'], rest)
    else if c.isDigit then some (c :: rest.takeWhile Char.isDigit, rest.dropWhile Char.isDigit)
    else none

/-- The fraction, if there is one. -/
def scanFraction : List Char → List Char × List Char
  | '.' :: rest =>
    if rest.takeWhile Char.isDigit = [] then ([], '.' :: rest)
    else ('.' :: rest.takeWhile Char.isDigit, rest.dropWhile Char.isDigit)
  | cs => ([], cs)

/-- The sign of an exponent, if there is one. -/
def scanSign : List Char → List Char × List Char
  | '+' :: rest => (['+'], rest)
  | '-' :: rest => (['-'], rest)
  | cs => ([], cs)

def scanExponent : List Char → List Char × List Char
  | [] => ([], [])
  | c :: rest =>
    let (sign, digits) := scanSign rest
    if (c = 'e' ∨ c = 'E') ∧ digits.takeWhile Char.isDigit ≠ [] then
      (c :: sign ++ digits.takeWhile Char.isDigit, digits.dropWhile Char.isDigit)
    else ([], c :: rest)

def scanNumber (negative : Bool) (cs : List Char) : Option (Json × List Char) := do
  let (whole, rest) ← scanWhole cs
  let (fraction, rest) := scanFraction rest
  let (exponent, rest) := scanExponent rest
  if fraction = [] ∧ exponent = [] then
    some (.int (if negative then -digitsValue whole else digitsValue whole), rest)
  else
    let sign := if negative then ['-'] else []
    some (.float (String.ofList (sign ++ whole ++ fraction ++ exponent)), rest)

/-- A word of the language, with the numbers that Python adds to it. -/
def scanWord (cs : List Char) (word : String) (value : Json) : Option (Json × List Char) :=
  if word.toList.isPrefixOf cs then some (value, cs.drop word.toList.length) else none

def scanWords (cs : List Char) : Option (Json × List Char) :=
  (scanWord cs "null" .null).or <|
  (scanWord cs "true" (.bool true)).or <|
  (scanWord cs "false" (.bool false)).or <|
  (scanWord cs "NaN" (.float "NaN")).or <|
  (scanWord cs "Infinity" (.float "Infinity")).or <|
  scanWord cs "-Infinity" (.float "-Infinity")

mutual

/-- One value at the head of the text. Nothing is found when `fuel` levels are not enough. -/
def scanValue : Nat → List Char → Option (Json × List Char)
  | 0, _ => none
  | _ + 1, [] => none
  | fuel + 1, c :: rest =>
    if c = '"' then do
      let (chars, rest) ← scanChars (rest.length + 1) rest
      some (.str (String.ofList chars), rest)
    else if c = '[' then
      match skipSpace rest with
      | ']' :: rest => some (.arr [], rest)
      | cs => do
        let (items, rest) ← scanItems fuel cs
        some (.arr items, rest)
    else if c = '{' then
      match skipSpace rest with
      | '}' :: rest => some (.obj [], rest)
      | cs => do
        let (members, rest) ← scanMembers fuel cs
        some (.obj members, rest)
    else if c.isDigit then scanNumber false (c :: rest)
    else if c = '-' then (scanNumber true rest).or (scanWords (c :: rest))
    else scanWords (c :: rest)

def scanItems : Nat → List Char → Option (List Json × List Char)
  | 0, _ => none
  | fuel + 1, cs => do
    let (item, rest) ← scanValue fuel cs
    match skipSpace rest with
    | ']' :: rest => some ([item], rest)
    | ',' :: rest =>
      let (items, rest) ← scanItems fuel (skipSpace rest)
      some (item :: items, rest)
    | _ => none

def scanMembers : Nat → List Char → Option (List (String × Json) × List Char)
  | 0, _ => none
  | _ + 1, [] => none
  | fuel + 1, c :: cs =>
    if c = '"' then do
      let (name, rest) ← scanChars (cs.length + 1) cs
      match skipSpace rest with
      | ':' :: rest =>
        let (value, rest) ← scanValue fuel (skipSpace rest)
        match skipSpace rest with
        | '}' :: rest => some ([(String.ofList name, value)], rest)
        | ',' :: rest =>
          let (members, rest) ← scanMembers fuel (skipSpace rest)
          some ((String.ofList name, value) :: members, rest)
        | _ => none
      | _ => none
    else none

end

/-- The tree of a text that is one JSON value. A byte order mark is refused. -/
def scan (text : String) : Option Json :=
  match text.toList with
  | '\uFEFF' :: _ => none
  | cs =>
    match scanValue (2 * cs.length + 2) (skipSpace cs) with
    | some (tree, rest) => if skipSpace rest = [] then some tree else none
    | none => none

def loads (text : String) : Option Json := (scan text).map build

end PriceOracle.Lib.JsonText
