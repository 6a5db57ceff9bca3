import Async2.Ownership.Natives

/-!
# The natives by name

Every native of `natives_json.cpp`, `natives_msgpack.cpp`, `natives_hjson.cpp` and the parts
of `natives_http.cpp` and `natives_ws.cpp` that take a data handle, as a member of its
family.  Cells that stand for keys are extended to 64 bits; floats are given by the bits of
the double that they are converted to.  Natives that only differ in how they hand a number
to the plugin are the same member.
-/

namespace Async2.Ownership.Surface

variable (json : Int) (key : Bytes) (index : Nat) (path : List PathArg)

/-!
## Creating, parsing and closing
-/

def jsonParse (responseBody : Bytes) (id : Int) : Native := .make (.json responseBody) id

def jsonParseString (str : Bytes) (id : Int) : Native := .make (.json (cStr str)) id

def jsonParseFile (contents : Bytes) (id : Int) : Native := .make (.json contents) id

def hjsonParseString (str : Bytes) (id : Int) : Native := .make (.hjson (cStr str)) id

def hjsonParseFile (contents : Bytes) (id : Int) : Native := .make (.hjson contents) id

def msgPackParse (maxElements : Nat) (responseBody : Bytes) (id : Int) : Native :=
  .make (.msgPack maxElements responseBody) id

def msgPackParseBuffer (maxElements : Nat) (data : Bytes) (id : Int) : Native :=
  .make (.msgPack maxElements data) id

def jsonCreateObject (id : Int) : Native := .make .object id

def jsonCreateArray (id : Int) : Native := .make .array id

def intMapCreate (id : Int) : Native := .make .intMap id

def jsonRef (id : Int) : Native := .wrap json .self .any id

def jsonCopy (id : Int) : Native := .copy json id

def jsonClose : Native := .close json

/-!
## Reading
-/

def jsonGetType : Native := .query json (.get .type .self)

def jsonObjectSize : Native := .query json .objectSize

def jsonArrayLength : Native := .query json .arrayLength

def intMapSize : Native := .query json .intMapSize

def jsonHasKey : Native := .query json (.hasKey key)

def intMapHasKey (key : Int32) : Native := .query json (.intMapHasKey key.toInt64)

def intMapHasKey64 (key : Int64) : Native := .query json (.intMapHasKey key)

def jsonGetString : Native := .query json (.getStrict .string (.member key))

def jsonArrayGetString : Native := .query json (.getStrict .string (.element index))

def intMapGetString (key : Int32) : Native :=
  .query json (.getStrict .string (.intMember key.toInt64))

def intMapGetString64 (key : Int64) : Native := .query json (.getStrict .string (.intMember key))

def jsonAsString : Native := .query json (.getStrict .string .self)

def jsonPathGetString : Native := .query json (.get .string (.path path))

def jsonGetInt : Native := .query json (.getStrict .int (.member key))

def jsonArrayGetInt : Native := .query json (.getStrict .int (.element index))

def intMapGetInt (key : Int32) : Native := .query json (.getStrict .int (.intMember key.toInt64))

def intMapGetInt64 (key : Int64) : Native := .query json (.getStrict .int (.intMember key))

def jsonAsInt : Native := .query json (.getStrict .int .self)

def jsonPathGetInt : Native := .query json (.get .int (.path path))

def jsonGetFloat : Native := .query json (.getStrict .float (.member key))

def jsonArrayGetFloat : Native := .query json (.getStrict .float (.element index))

def intMapGetFloat (key : Int32) : Native :=
  .query json (.getStrict .float (.intMember key.toInt64))

def intMapGetFloat64 (key : Int64) : Native := .query json (.getStrict .float (.intMember key))

def jsonAsFloat : Native := .query json (.getStrict .float .self)

def jsonPathGetFloat : Native := .query json (.get .float (.path path))

def jsonGetBool : Native := .query json (.getStrict .bool (.member key))

def jsonArrayGetBool : Native := .query json (.getStrict .bool (.element index))

def intMapGetBool (key : Int32) : Native := .query json (.getStrict .bool (.intMember key.toInt64))

def intMapGetBool64 (key : Int64) : Native := .query json (.getStrict .bool (.intMember key))

def jsonAsBool : Native := .query json (.getStrict .bool .self)

def jsonPathGetBool : Native := .query json (.get .bool (.path path))

def jsonGetMemberType : Native := .query json (.get .type (.member key))

def jsonArrayGetType : Native := .query json (.get .type (.element index))

def intMapGetMemberType (key : Int32) : Native := .query json (.get .type (.intMember key.toInt64))

def intMapGetMemberType64 (key : Int64) : Native := .query json (.get .type (.intMember key))

def jsonPathGetType : Native := .query json (.get .type (.path path))

def jsonGetBuffer : Native := .query json .buffer

def jsonEquals (other : Int) : Native := .equals json other

def jsonSerialize (pretty : Bool) : Native := .query json (.serialize pretty)

def msgPackSerialize : Native := .query json .msgPackSerialize

def jsonMemorySize : Native := .query json .memorySize

/-!
## Handles on children
-/

def jsonGetObject (id : Int) : Native := .wrap json (.member key) .object id

def jsonGetArray (id : Int) : Native := .wrap json (.member key) .array id

def jsonGet (id : Int) : Native := .wrap json (.member key) .any id

def jsonArrayGetObject (id : Int) : Native := .wrap json (.element index) .any id

def jsonArrayGet (id : Int) : Native := .wrap json (.element index) .any id

def intMapGetObject (key : Int32) (id : Int) : Native :=
  .wrap json (.intMember key.toInt64) .object id

def intMapGetArray (key : Int32) (id : Int) : Native :=
  .wrap json (.intMember key.toInt64) .array id

def intMapGet (key : Int32) (id : Int) : Native := .wrap json (.intMember key.toInt64) .any id

def intMapGetObject64 (key : Int64) (id : Int) : Native := .wrap json (.intMember key) .object id

def intMapGetArray64 (key : Int64) (id : Int) : Native := .wrap json (.intMember key) .array id

def intMapGet64 (key : Int64) (id : Int) : Native := .wrap json (.intMember key) .any id

def jsonPathGet (id : Int) : Native := .wrap json (.path path) .any id

/-!
## Objects
-/

def jsonSetString (value : Bytes) : Native := .mutate json (.set key (.string value))

def jsonSetInt (value : Int64) : Native := .mutate json (.set key (.int value))

def jsonSetFloat (value : UInt64) : Native := .mutate json (.set key (.float value))

def jsonSetBool (value : Bool) : Native := .mutate json (.set key (.bool value))

def jsonSetNull : Native := .mutate json (.set key .null)

def jsonSetObject (child : Int) : Native := .setObject json (.member key) child

def jsonRemoveKey : Native := .mutate json (.removeKey key)

def jsonObjectClear : Native := .mutate json .objectClear

def jsonObjectMerge (other : Int) (overwrite : Bool) : Native :=
  .merge json (.object overwrite) other

/-!
## Int-maps
-/

def intMapSetString (key : Int32) (value : Bytes) : Native :=
  .mutate json (.intMapSet key.toInt64 (.string value))

def intMapSetString64 (key : Int64) (value : Bytes) : Native :=
  .mutate json (.intMapSet key (.string value))

def intMapSetInt (key : Int32) (value : Int64) : Native :=
  .mutate json (.intMapSet key.toInt64 (.int value))

def intMapSetInt64 (key value : Int64) : Native := .mutate json (.intMapSet key (.int value))

def intMapSetFloat (key : Int32) (value : UInt64) : Native :=
  .mutate json (.intMapSet key.toInt64 (.float value))

def intMapSetFloat64 (key : Int64) (value : UInt64) : Native :=
  .mutate json (.intMapSet key (.float value))

def intMapSetBool (key : Int32) (value : Bool) : Native :=
  .mutate json (.intMapSet key.toInt64 (.bool value))

def intMapSetBool64 (key : Int64) (value : Bool) : Native :=
  .mutate json (.intMapSet key (.bool value))

def intMapSetNull (key : Int32) : Native := .mutate json (.intMapSet key.toInt64 .null)

def intMapSetNull64 (key : Int64) : Native := .mutate json (.intMapSet key .null)

def intMapSetObject (key : Int32) (child : Int) : Native :=
  .setObject json (.intMember key.toInt64) child

def intMapSetObject64 (key : Int64) (child : Int) : Native := .setObject json (.intMember key) child

def intMapRemoveKey (key : Int32) : Native := .mutate json (.intMapRemoveKey key.toInt64)

def intMapRemoveKey64 (key : Int64) : Native := .mutate json (.intMapRemoveKey key)

def intMapClear : Native := .mutate json .intMapClear

def intMapMerge (other : Int) (overwrite : Bool) : Native := .merge json (.intMap overwrite) other

/-!
## Arrays
-/

def jsonArraySetString (value : Bytes) : Native := .mutate json (.arraySet index (.string value))

def jsonArrayAppendString (value : Bytes) : Native := .mutate json (.arrayAppend (.string value))

def jsonArraySetInt (value : Int64) : Native := .mutate json (.arraySet index (.int value))

def jsonArrayAppendInt (value : Int64) : Native := .mutate json (.arrayAppend (.int value))

def jsonArraySetFloat (value : UInt64) : Native := .mutate json (.arraySet index (.float value))

def jsonArrayAppendFloat (value : UInt64) : Native := .mutate json (.arrayAppend (.float value))

def jsonArraySetBool (value : Bool) : Native := .mutate json (.arraySet index (.bool value))

def jsonArrayAppendBool (value : Bool) : Native := .mutate json (.arrayAppend (.bool value))

def jsonArraySetNull : Native := .mutate json (.arraySet index .null)

def jsonArrayAppendNull : Native := .mutate json (.arrayAppend .null)

def jsonArraySetObject (child : Int) : Native := .setObject json (.element index) child

def jsonArrayAppendObject (child : Int) : Native := .setObject json .append child

def jsonArrayRemove : Native := .mutate json (.arrayRemove index)

def jsonArrayClear : Native := .mutate json .arrayClear

def jsonArrayExtend (other : Int) : Native := .merge json .extend other

/-!
## Iterators
-/

def objectIterCreate (id : Int) : Native := .iterCreate json .object id

def intMapIterCreate (id : Int) : Native := .iterCreate json .intMap id

def iterNext (iter : Int) : Native := .iterNext iter .object

def intMapIterNext (iter : Int) : Native := .iterNext iter .intMap

def iterClose (iter : Int) : Native := .iterClose iter

def iterGetType (iter : Int) : Native := .iterGet iter .type

def iterGetInt (iter : Int) : Native := .iterGet iter .int

def iterGetFloat (iter : Int) : Native := .iterGet iter .float

def iterGetBool (iter : Int) : Native := .iterGet iter .bool

def iterGetString (iter : Int) : Native := .iterGet iter .string

def iterGetObject (iter id : Int) : Native := .iterGetObject iter id

/-!
## Copies for the event thread
-/

/-- `SetBodyJSON` and `SetBodyMsgPack` on a request that is there. -/
def setBody : Native := .send json

/-- `WsSendJson` and `WsSendMsgPack` on a connection that is there. -/
def wsSendNode : Native := .send json

end Async2.Ownership.Surface
