import GnunetWeb.Heap
import GnunetWeb.Library.Double
import GnunetWeb.Library.IndexedDB.Transaction

/-!
# The datastore plugin

`plugin_datastore_emscripten_int.js` over the object store that `datastore-pre.js`
creates; the names are those of its functions without `emscripten_plugin_`.  Each function
starts one transaction; the calls of the C code that its handlers make are the outputs.
-/

namespace GnunetWeb.Datastore

open IndexedDB

/-- The properties of a stored object, without `uid`, which is its primary key. -/
structure Datum where
  key : List Int
  data : List Int
  type : Int
  priority : Int
  anonymity : Int
  replication : Int
  expiry : Int
  deriving DecidableEq

/-- A stored object; `none` is `{}`. -/
abbrev Stored := Option Datum

/-- `['key', 'uid']` -/
def byKey : Index Stored := fun uid value =>
  value.map fun v => .array [.array (v.key.map .number), .number uid]

/-- `['anonymity', 'type', 'uid']` -/
def byAnonType : Index Stored := fun uid value =>
  value.map fun v => .array [.number v.anonymity, .number v.type, .number uid]

/-- The object store itself. -/
def byUid : Index Stored := fun uid _ => some (.number uid)

def byReplication : Index Stored := fun _ value => value.map fun v => .number v.replication

def byExpiry : Index Stored := fun _ value => value.map fun v => .number v.expiry

/-- What the handlers call: a continuation with its status, a datum processor, or the
function itself, with 0 for `next_uid`. -/
inductive Call where
  | cont (cont contCls keyPointer : Ptr) (size : Nat) (status : Int)
  | proc (proc procCls : Ptr) (datum : Option (Nat × Datum))
  | getKey (keyPointer : Ptr) (type : Int) (proc procCls : Ptr)
  | getZeroAnonymity (type : Int) (proc procCls : Ptr)

/-- The filter by data, negated. -/
def sameData (size : Nat) (data : List Int) (value : Datum) : Bool :=
  size = value.data.length ∧ data.zipIdx.all fun x => value.data[x.2]? = some x.1

def keyRange (key : List Int) : Range :=
  .bound (.array [.array (key.map .number)])
    (.array [.array (key.map .number), .number Double.maxValue])

/-- `emscripten_plugin_put_int`; `doPut` is its `do_put`. -/
def doPut (datum : Datum) (size : Nat) (cont contCls keyPointer : Ptr) : Script Stored Call Unit :=
  .request (.add none)
    (fun
      | .key uid =>
        .request (.put uid (some datum))
          (fun _ => .call (.cont cont contCls keyPointer size 1) fun _ => .done)
          (.abort (.call (.cont cont contCls keyPointer size (-1)) fun _ => .done))
          .done
      | _ => .done)
    (.call (.cont cont contCls keyPointer size (-1)) fun _ => .done)
    .done

/-- The stored object after a second put of its key and data. -/
def merge (value : Datum) (priority replication expiry : Int) : Datum :=
  { value with
    priority := Double.add value.priority priority
    replication := Double.add value.replication replication
    expiry := if value.expiry < expiry then expiry else value.expiry }

def putInt (heap8 : Heap8) (keyPointer : Ptr) (absent : Bool) (dataPointer : Ptr)
    (size : Nat) (type priority anonymity replication expiry : Int) (cont contCls : Ptr) :
    Script Stored Call Unit :=
  let key := slice heap8 keyPointer 64
  let data := slice heap8 dataPointer size
  let doPut := doPut ⟨key, data, type, priority, anonymity, replication, expiry⟩ size cont contCls
    keyPointer
  if absent then doPut
  else
    .request (.cursor ⟨byKey, keyRange key, .next, none⟩)
      (fun
        | .cursor (some cursor) =>
          match cursor.value with
          | none => .abort .done
          | some value =>
            if ¬ sameData size data value then .continue .done
            else
              .request (.put cursor.primaryKey (some (merge value priority replication expiry)))
                (fun _ => .call (.cont cont contCls keyPointer size 0) fun _ => .done)
                (.call (.cont cont contCls keyPointer size (-1)) fun _ => .done)
                .done
        | .cursor none => doPut
        | _ => .done)
      .done
      .done

def getKeyCursor (heap8 : Heap8) (nextUid : Int) (keyPointer : Ptr) : Cursor Stored :=
  if keyPointer ≠ 0 then
    let key := .array ((slice heap8 keyPointer 64).map .number)
    ⟨byKey, .bound (.array [key, .number nextUid]) (.array [key, .number Double.maxValue]), .next,
      none⟩
  else ⟨byUid, .all, .next, none⟩

/-- `emscripten_plugin_get_key_int`; `random` is not looked at. -/
def getKeyInt (heap8 : Heap8) (nextUid : Int) (keyPointer : Ptr) (type : Int)
    (proc procCls : Ptr) : Script Stored Call Unit :=
  .request (.cursor (getKeyCursor heap8 nextUid keyPointer))
    (fun
      | .cursor (some cursor) =>
        match cursor.value with
        -- `{}` has no type
        | none => if type ≠ 0 then .continue .done else .abort .done
        | some value =>
          if type ≠ 0 ∧ type ≠ value.type then .continue .done
          else .call (.proc proc procCls (some (cursor.primaryKey, value))) fun _ => .done
      | .cursor none =>
        if nextUid ≠ 0 then .call (.getKey keyPointer type proc procCls) fun _ => .done
        else .call (.proc proc procCls none) fun _ => .done
      | _ => .done)
    (.call (.proc proc procCls none) fun _ => .done)
    .done

def getReplicationInt (proc procCls : Ptr) : Script Stored Call Unit :=
  .request (.cursor ⟨byReplication, .all, .prev, none⟩)
    (fun
      | .cursor (some cursor) =>
        match cursor.value with
        | none => .abort .done
        | some value =>
          let value := if 0 < value.replication
            then { value with replication := Double.add value.replication (-1) } else value
          .request (.put cursor.primaryKey (some value))
            (fun _ => .call (.proc proc procCls (some (cursor.primaryKey, value))) fun _ => .done)
            (.call (.proc proc procCls none) fun _ => .done)
            .done
      | .cursor none => .call (.proc proc procCls none) fun _ => .done
      | _ => .done)
    (.call (.proc proc procCls none) fun _ => .done)
    .done

def getExpirationInt (proc procCls : Ptr) (now : Int) : Script Stored Call Unit :=
  .request (.cursor ⟨byExpiry, .upperBound (.number now) true, .next, none⟩)
    (fun
      | .cursor (some cursor) =>
        match cursor.value with
        | none => .abort .done
        | some value =>
          .call (.proc proc procCls (some (cursor.primaryKey, value))) fun ret =>
            if ret = 0 then .request (.delete cursor.primaryKey) (fun _ => .done) .done .done
            else .done
      | .cursor none => .call (.proc proc procCls none) fun _ => .done
      | _ => .done)
    (.call (.proc proc procCls none) fun _ => .done)
    .done

def getZeroAnonymityInt (nextUid type : Int) (proc procCls : Ptr) : Script Stored Call Unit :=
  .request (.cursor ⟨byAnonType, .bound (.array [.number 0, .number type, .number nextUid])
      (.array [.number 0, .number type, .number Double.maxValue]), .next, none⟩)
    (fun
      | .cursor (some cursor) =>
        match cursor.value with
        | none => .abort .done
        | some value => .call (.proc proc procCls (some (cursor.primaryKey, value))) fun _ => .done
      | .cursor none =>
        if nextUid ≠ 0 then .call (.getZeroAnonymity type proc procCls) fun _ => .done
        else .call (.proc proc procCls none) fun _ => .done
      | _ => .done)
    (.call (.proc proc procCls none) fun _ => .done)
    .done

def removeKeyInt (heap8 : Heap8) (keyPointer : Ptr) (size : Nat) (dataPointer : Ptr)
    (cont contCls : Ptr) : Script Stored Call Unit :=
  let key := slice heap8 keyPointer 64
  let data := slice heap8 dataPointer size
  .request (.cursor ⟨byKey, keyRange key, .next, none⟩)
    (fun
      | .cursor (some cursor) =>
        match cursor.value with
        | none => .abort .done
        | some value =>
          if ¬ sameData size data value then .continue .done
          else
            .request (.delete cursor.primaryKey)
              (fun _ => .call (.cont cont contCls keyPointer size 1) fun _ => .done)
              (.call (.cont cont contCls keyPointer size (-1)) fun _ => .done)
              .done
      | .cursor none => .call (.cont cont contCls keyPointer size 0) fun _ => .done
      | _ => .done)
    (.call (.cont cont contCls keyPointer size (-1)) fun _ => .done)
    .done

inductive Op where
  | put (heap8 : Heap8) (keyPointer : Ptr) (absent : Bool) (dataPointer : Ptr) (size : Nat)
      (type priority anonymity replication expiry : Int) (cont contCls : Ptr)
  | removeKey (heap8 : Heap8) (keyPointer : Ptr) (size : Nat) (dataPointer : Ptr)
      (cont contCls : Ptr)
  | getReplication (proc procCls : Ptr)
  | getExpiration (proc procCls : Ptr) (now : Int)

def Op.script : Op → Script Stored Call Unit
  | put heap8 keyPointer absent dataPointer size type priority anonymity replication expiry cont
      contCls =>
    putInt heap8 keyPointer absent dataPointer size type priority anonymity replication expiry cont
      contCls
  | removeKey heap8 keyPointer size dataPointer cont contCls =>
    removeKeyInt heap8 keyPointer size dataPointer cont contCls
  | getReplication proc procCls => getReplicationInt proc procCls
  | getExpiration proc procCls now => getExpirationInt proc procCls now

end GnunetWeb.Datastore
