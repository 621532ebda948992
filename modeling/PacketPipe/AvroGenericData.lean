import PacketPipe.AvroSerializerModel

/-!
# Generic data in memory

Data with the documented operations of avro-cpp. A new union has no branch,
and stands for no datum until one is selected; `value<T>()` looks into unions
before it asks for the type, and is undefined when the type is another one.
-/

namespace PacketPipe.AvroGenericData

open AvroBinary AvroSerializerModel

/-- A datum under construction. -/
inductive GenericDatum
  | null
  | int (v : Int32)
  | long (v : Int64)
  | string (s : String)
  | enum (symbols : List String) (index : ℕ)
  | union (branches : List Schema) (branch : Option ℕ) (d : GenericDatum)
  | record (names : List String) (fields : List GenericDatum)

mutual

/-- The default of every type; a union without a branch. -/
def newDatum : Schema → GenericDatum
  | .null => .null
  | .int => .int 0
  | .long => .long 0
  | .string => .string ""
  | .enum symbols => .enum symbols 0
  | .union branches => .union branches none .null
  | .record names types => .record names (newFields types)

/-- The fields of a new record. -/
def newFields : List Schema → List GenericDatum
  | [] => []
  | s::types => newDatum s::newFields types

end

theorem newFields_eq (types : List Schema) : newFields types=types.map newDatum := by
  induction types with
  | nil => rfl
  | cons s types ih => rw [newFields,ih,List.map_cons]

/-- An operation on what selected branches hold. -/
def throughUnions (put : GenericDatum → Except (Failure String) GenericDatum) :
    GenericDatum → Except (Failure String) GenericDatum
  | .union branches (some i) d => (throughUnions put d).map (.union branches (some i))
  | .union _ none _ => .error .undefined
  | d => put d

/-- Assignment to `value<std::string>()`. -/
def setString (text : String) : GenericDatum → Except (Failure String) GenericDatum :=
  throughUnions fun
    | .string _ => .ok (.string text)
    | _ => .error .undefined

/-- Assignment to `value<int32_t>()`. -/
def setInt (v : Int32) : GenericDatum → Except (Failure String) GenericDatum :=
  throughUnions fun
    | .int _ => .ok (.int v)
    | _ => .error .undefined

/-- Assignment to `value<int64_t>()`. -/
def setLong (v : Int64) : GenericDatum → Except (Failure String) GenericDatum :=
  throughUnions fun
    | .long _ => .ok (.long v)
    | _ => .error .undefined

/-- `value<GenericEnum>().set(symbol)`. -/
def setSymbol (symbol : String) : GenericDatum → Except (Failure String) GenericDatum :=
  throughUnions fun
    | .enum symbols _ => match symbols.idxOf? symbol with
      | some index => .ok (.enum symbols index)
      | none => .error (.threw "No such symbol")
    | _ => .error .undefined

/-- `selectBranch`; another branch starts with its default. -/
def selectBranch (i : ℕ) : GenericDatum → Except (Failure String) GenericDatum
  | .union branches branch d =>
    if branch=some i then .ok (.union branches branch d)
    else match branches[i]? with
      | some s => .ok (.union branches (some i) (newDatum s))
      | none => .error .undefined
  | _ => .error .undefined

/-- The fields of a record. -/
def asRecord : GenericDatum → Option (List String×List GenericDatum)
  | .record names fields => some (names,fields)
  | _ => none

/-- `fieldCount()`. -/
def fieldCount (d : GenericDatum) : Except (Failure String) ℕ :=
  match asRecord d with
  | some (_,fields) => .ok fields.length
  | none => .error .undefined

/-- An operation on `fieldAt(i)`. -/
def atField (i : ℕ) (put : GenericDatum → Except (Failure String) GenericDatum)
    (d : GenericDatum) : Except (Failure String) GenericDatum :=
  match asRecord d with
  | some (names,fields) => match fields[i]? with
    | some field => (put field).map fun field => .record names (fields.set i field)
    | none => .error .undefined
  | none => .error .undefined

mutual

/-- The datum that is complete. -/
def value : GenericDatum → Option Datum
  | .null => some .null
  | .int v => some (.int v)
  | .long v => some (.long v)
  | .string s => some (.string s)
  | .enum symbols index => some (.enum symbols index)
  | .union branches (some i) d => (value d).map (.union branches i)
  | .union _ none _ => none
  | .record names fields => (values fields).map (.record names)

/-- The data of complete fields. -/
def values : List GenericDatum → Option (List Datum)
  | [] => some []
  | d::fields => (value d).bind fun a => (values fields).map (a::·)

end

/-- All fields are complete. -/
theorem values_eq {fields : List GenericDatum} {data : List Datum}
    (h : fields.map value=data.map some) : values fields=some data := by
  induction fields generalizing data with
  | nil =>
    rw [List.map_nil,eq_comm,List.map_eq_nil_iff] at h
    rw [values,h]
  | cons d fields ih =>
    cases data with
    | nil => cases h
    | cons a data =>
      rw [List.map_cons,List.map_cons,List.cons.injEq] at h
      rw [values,h.1,ih h.2]
      rfl

/-- The bytes of a complete datum. -/
def encodeComplete (d : GenericDatum) : Except (Failure String) (List UInt8) :=
  match value d with
  | some a => .ok (encode a)
  | none => .error .undefined

/-- The operations in memory. -/
def plainData : GenericApi GenericDatum where
  newDatum := newDatum
  fieldCount := fieldCount
  atField := atField
  setString := setString
  setInt := setInt
  setLong := setLong
  setSymbol := setSymbol
  selectBranch := selectBranch
  encode := encodeComplete
  asRecord := asRecord
  value := value

/-- A datum with fields is a record. -/
theorem asRecord_some {d : GenericDatum} {names : List String} {fields : List GenericDatum}
    (h : asRecord d=some (names,fields)) : d=.record names fields := by
  cases d with
  | record =>
    cases h
    rfl
  | null => cases h
  | int => cases h
  | long => cases h
  | string => cases h
  | enum => cases h
  | union => cases h

/-- They are as documented. -/
theorem plainData_documented : plainData.Documented where
  record_new names types := by
    change asRecord (.record names (newFields types))=_
    rw [newFields_eq]
    rfl
  fieldCount_record r names fields h := by
    change fieldCount r=_
    rw [fieldCount,asRecord_some h]
    rfl
  atField_record r names fields i d d' put h hfield hput := by
    refine ⟨.record names (fields.set i d'),?_,rfl⟩
    change atField i put r=_
    rw [atField,asRecord_some h,asRecord]
    dsimp only
    rw [hfield]
    dsimp only
    rw [hput]
    rfl
  value_record r names fields data h hdata := by
    change value r=_
    rw [asRecord_some h,value,values_eq hdata]
    rfl
  setString_new text := ⟨.string text,rfl,rfl⟩
  setInt_new v := ⟨.int v,rfl,rfl⟩
  setLong_new v := ⟨.long v,rfl,rfl⟩
  setSymbol_new symbols symbol index h := by
    refine ⟨.enum symbols index,?_,rfl⟩
    change setSymbol symbol (.enum symbols 0)=_
    rw [setSymbol,throughUnions]
    · dsimp only
      rw [h]
    · intro _ _ _ hunion
      cases hunion
    · intro _ _ hunion
      cases hunion
  selectBranch_null branches i h := by
    refine ⟨.union branches (some i) .null,?_,rfl⟩
    change selectBranch i (.union branches none .null)=_
    rw [selectBranch,if_neg (by simp),h]
    rfl
  selectBranch_string branches i text h := by
    refine ⟨.union branches (some i) (.string ""),.union branches (some i) (.string text),?_,rfl,
      rfl⟩
    change selectBranch i (.union branches none .null)=_
    rw [selectBranch,if_neg (by simp),h]
    rfl
  encode_value d a h := by
    change encodeComplete d=_
    change value d=some a at h
    rw [encodeComplete,h]

end PacketPipe.AvroGenericData
