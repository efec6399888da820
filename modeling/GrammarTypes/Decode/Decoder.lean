import GrammarTypes.Decode.Container
import GrammarTypes.Decode.Skip
import GrammarTypes.Decode.Expr

/-!
# Decoders

A `Decoder` reads one type of thing in two ways: from a running text and from a value in memory.
Both visit the document in order, so the first failure in the document is the one reported, and both
find the same things; only the reader of a text knows places and has limits. `Record.decoder`
decodes a thing with named fields, and `Decoder.expression` an expression, by its tag.
-/

namespace GrammarTypes.Decode

open Json (Value)

/-- A way to read a thing from a text and from a value. -/
structure Decoder (α : Type) where
  /-- Reads from a text. -/
  ofText : Limits → Reader α
  /-- Reads from a value. -/
  ofValue : Value → Except Failure α

namespace Decoder

/-- Reads a thing and changes it. -/
def map {α β : Type} (f : α → β) (d : Decoder α) : Decoder β where
  ofText limits s := (d.ofText limits s).map fun (x, s) => (f x, s)
  ofValue v := (d.ofValue v).map f

/-- Reads a text. -/
def string : Decoder String where
  ofText _ s := do
    match ← readBeginning s with
    | (.scalar (.string text), s) => return (text, s)
    | (b, s) => throw (unexpected b.found .string s)
  ofValue v := raise .nowhere (textOf v)

/-- Reads a value whole into memory and decodes it there. -/
def buffered {α : Type} (f : Value → Except Cause α) : Decoder α where
  ofText limits s := do
    let (v, s) ← readValue limits.items limits.depth s
    let x ← raise (.before s) (f v)
    return (x, s)
  ofValue v := raise .nowhere (f v)

/-! ## Lists -/

/-- The items of an array decoded from the given index on. -/
def itemsOf {α : Type} (f : Value → Except Failure α) : Nat → List Value → Except Failure (List α)
  | _, [] => .ok []
  | index, v :: vs => do
    let x ← within (.index index) (f v)
    let xs ← itemsOf f (index + 1) vs
    return x :: xs

/-- Reads a list. -/
def list {α : Type} (d : Decoder α) : Decoder (List α) where
  ofText limits s := do
    match ← readBeginning s with
    | (.array, s) =>
      enter pastArray limits (fun limits => readItems (d.ofText limits) limits.items 0) s
    | (b, s) => throw (unexpected b.found .sequence s)
  ofValue
    | .array vs => itemsOf d.ofValue 0 vs
    | v => .error { cause := .wrongType (.of v) .sequence }

end Decoder

/-! ## Records -/

/-- A field of a record that is read into a draft. -/
structure RecordField (σ : Type) where
  /-- The name of the field. -/
  key : String
  /-- Whether the record must have it. -/
  required : Bool
  /-- Whether the draft has it already. -/
  filled : σ → Bool
  /-- Reads the field into a draft. -/
  decode : σ → Decoder σ

/-- A record: its name in messages, its fields in order, the empty draft, and what a draft makes. -/
structure Record (σ α : Type) where
  /-- The name in messages. -/
  name : String
  /-- The fields in order. -/
  fields : List (RecordField σ)
  /-- The empty draft. -/
  start : σ
  /-- The record with the fields of a draft, or the first field it lacks. -/
  build : σ → Except Cause α

namespace Record

variable {σ α : Type}

/-- The field with a name. -/
def field? (r : Record σ α) (key : String) : Option (RecordField σ) :=
  r.fields.find? fun f => f.key == key

/-- The failure of a record written as a list that ends before a field. -/
def short (r : Record σ α) (index : Nat) (place : Place) : Failure :=
  { cause := .shortRecord index r.name r.fields.length, place := place }

/-- Reads the members of an object into a draft, up to the closing brace. -/
def readFields (r : Record σ α) (limits : Limits) : (bound : Nat) → (first : Bool) → σ → Reader σ
  | 0, _, _, s => .error (.peek .endInObject s)
  | bound + 1, first, draft, s => do
    match ← within .unreadable (nextKey first s) with
    | (none, s) => return (draft, s)
    | (some key, s) =>
      match r.field? key with
      | none =>
        let (_, s) ← readMember key skipValue s
        readFields r limits bound false draft s
      | some f =>
        if f.filled draft then throw { cause := .duplicateField key, place := .before s }
        let (draft, s) ← readMember key ((f.decode draft).ofText limits) s
        readFields r limits bound false draft s

/-- Reads the items of an array into the given fields of a draft, as far as there are any. -/
def readPositions (r : Record σ α) (limits : Limits) :
    Nat → List (RecordField σ) → σ → Reader σ
  | _, [], draft, s => .ok (draft, s)
  | index, f :: fs, draft, s => do
    let (more, s) ← nextItem (index == 0) s
    if more then
      let (draft, s) ← within (.index index) ((f.decode draft).ofText limits s)
      readPositions r limits (index + 1) fs draft s
    else if f.required then throw (r.short index (.before s))
    else readPositions r limits (index + 1) fs draft s

/-- The members of an object decoded into a draft. -/
def fieldsOf (r : Record σ α) : List (String × Value) → σ → Except Failure σ
  | [], draft => .ok draft
  | (key, v) :: ms, draft =>
    match r.field? key with
    | none => fieldsOf r ms draft
    | some f =>
      if f.filled draft then .error { cause := .duplicateField key }
      else do
        let draft ← within (.key key) ((f.decode draft).ofValue v)
        fieldsOf r ms draft

/-- The items of an array decoded into the given fields of a draft: `length` items in all. -/
def positionsOf (r : Record σ α) (length : Nat) :
    Nat → List (RecordField σ) → List Value → σ → Except Failure σ
  | _, [], [], draft => .ok draft
  | _, [], _ :: _, _ => .error { cause := .longRecord length }
  | index, f :: fs, [], draft =>
    if f.required then .error (r.short index .nowhere)
    else positionsOf r length (index + 1) fs [] draft
  | index, f :: fs, v :: vs, draft => do
    let draft ← within (.index index) ((f.decode draft).ofValue v)
    positionsOf r length (index + 1) fs vs draft

/-- The decoder of a record, written as an object or as a list of its fields. -/
def decoder (r : Record σ α) : Decoder α where
  ofText limits s := do
    match ← readBeginning s with
    | (.object, s) =>
      enter pastObject limits (fun limits s => do
        let (draft, s) ← r.readFields limits limits.items true r.start s
        let x ← raise (.before s) (r.build draft)
        return (x, s.tail)) s
    | (.array, s) =>
      enter pastArray limits (fun limits s => do
        let (draft, s) ← r.readPositions limits 0 r.fields r.start s
        let x ← raise (.before s) (r.build draft)
        let s ← endArray s
        return (x, s)) s
    | (b, s) => throw (unexpected b.found (.record r.name) s)
  ofValue
    | .object ms => do
      let draft ← r.fieldsOf ms r.start
      raise .nowhere (r.build draft)
    | .array vs => do
      let draft ← r.positionsOf vs.length 0 r.fields vs r.start
      raise .nowhere (r.build draft)
    | v => .error { cause := .wrongType (.of v) (.record r.name) }

end Record

/-! ## Tagged expressions -/

/-- Reads a tag directly under a rule. -/
def readTag (s : List Char) : Except Failure (Expr.Kind × List Char) := do
  match ← readBeginning s with
  | (.scalar v, s) =>
    let kind ← raise (.at s 0) (kindOf v)
    return (kind, s)
  | (b, s) => throw (unexpected b.found .kindTag s)

/-- Reads the members of a tagged object up to the closing brace: the kind that its tag names, and
the other members whole. -/
def readTagged (limits : Limits) :
    (bound : Nat) → (first : Bool) → Option Expr.Kind → Reader (Expr.Kind × List (String × Value))
  | 0, _, _, s => .error (.peek .endInObject s)
  | bound + 1, first, seen, s => do
    match ← within .unreadable (nextKey first s) with
    | (none, s) =>
      match seen with
      | some kind => return ((kind, []), s)
      | none => throw { cause := .missingField tagKey, place := .before s }
    | (some key, s) =>
      if key = tagKey then
        if seen.isSome then throw { cause := .duplicateField tagKey, place := .before s }
        let (kind, s) ← readMember key readTag s
        readTagged limits bound false (some kind) s
      else
        let (v, s) ← readMember key (readValue limits.items limits.depth) s
        let ((kind, ms), s) ← readTagged limits bound false seen s
        return ((kind, (key, v) :: ms), s)

/-- The kind that the members of an object directly under a rule name, and the other members. -/
def taggedOf (seen : Option Expr.Kind) :
    List (String × Value) → Except Failure (Expr.Kind × List (String × Value))
  | [] =>
    match seen with
    | some kind => .ok (kind, [])
    | none => .error { cause := .missingField tagKey }
  | (key, v) :: ms =>
    if key = tagKey then
      if seen.isSome then .error { cause := .duplicateField tagKey }
      else do
        let kind ← within (.key key) (raise .nowhere (kindOf v))
        taggedOf (some kind) ms
    else do
      let (kind, ms) ← taggedOf seen ms
      return (kind, (key, v) :: ms)

/-- Reads the tag and the body of an expression directly under a rule. -/
def readBody (limits : Limits) (s : List Char) :
    Except Failure ((Expr.Kind × Body) × List Char) := do
  match ← readBeginning s with
  | (.object, s) =>
    enter pastObject limits (fun limits s => do
      let ((kind, ms), s) ← readTagged limits limits.items true none s
      return ((kind, .members ms), s.tail)) s
  | (.array, s) =>
    enter pastArray limits (fun limits s => do
      let (more, s) ← nextItem true s
      if more then
        let (kind, s) ← within (.index 0) (readTag s)
        let (vs, s) ← readItems (readValue limits.items limits.depth) limits.items 1 s
        return ((kind, .items vs), s)
      else throw { cause := .missingField tagKey, place := .before s }) s
  | (.scalar v, s) => throw (unexpected (.of v) .expression s)

/-- The tag and the body of an expression directly under a rule. -/
def bodyOf : Value → Except Failure (Expr.Kind × Body)
  | .object ms => do
    let (kind, ms) ← taggedOf none ms
    return (kind, .members ms)
  | .array [] => .error { cause := .missingField tagKey }
  | .array (tag :: vs) => do
    let kind ← within (.index 0) (raise .nowhere (kindOf tag))
    return (kind, .items vs)
  | v => .error { cause := .wrongType (.of v) .expression }

/-- Reads the expression of a rule: its own tag on the way, and all else in memory. -/
def Decoder.expression : Decoder Expr where
  ofText limits s := do
    let ((kind, body), s) ← readBody limits s
    let e ← raise (.before s) (exprOfBody kind body)
    return (e, s)
  ofValue v := do
    let (kind, body) ← bodyOf v
    raise .nowhere (exprOfBody kind body)

end GrammarTypes.Decode
