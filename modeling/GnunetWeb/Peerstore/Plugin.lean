import GnunetWeb.Heap
import GnunetWeb.Library.Double
import GnunetWeb.Library.IndexedDB.Object
import GnunetWeb.Library.IndexedDB.Transaction

/-!
# The peerstore plugin

`plugin_peerstore_emscripten.c` and `plugin_peerstore_emscripten_int.js` over the
object store that `peerstore-pre.js` creates; the names are without `peerstore_emscripten_`.
The store has a key generator and no key path, so that `store.put(value)` is an `add`.
`UTF8ToString` is a parameter; texts are known by what it returns.  A function that throws
before it has made a request is `none`.
-/

namespace GnunetWeb.Peerstore

open IndexedDB

/-- The indexes that `onupgradeneeded` creates. -/
def schema : Schema :=
  [("by_subsystem", .name "sub_system"),
    ("by_pid", .names ["sub_system", "peer"]),
    ("by_key", .names ["sub_system", "key"]),
    ("by_all", .names ["sub_system", "peer", "key"]),
    ("by_expiry", .name "expiry")]

/-- `struct GNUNET_PEERSTORE_Record`, with what its pointers point at. -/
structure Record where
  subSystem : Option String
  peer : List Int8
  key : Option String
  value : List Int8
  valueSize : Nat
  expiry : Nat
  deriving DecidableEq

/-- What the handlers call: a continuation, or a processor. -/
inductive Call where
  | cont (cont contCls : Ptr) (status : Int)
  | iter (iter iterCls : Ptr) (record : Option Record) (emsg : Int)
  deriving DecidableEq

/-- `peerstore_emscripten_expire_records_int`; the variable is `count`. -/
def expireRecordsInt (now : Int) (cont contCls : Ptr) : Option (Script Object Call Nat) :=
  (schema.index "by_expiry").map fun index =>
    .request (.cursor ⟨index, .upperBound (.number now) true, .next, none⟩)
      (fun
        | .cursor (some cursor) =>
          .read fun count => .write (count + 1)
            (.request (.delete cursor.primaryKey) (fun _ => .done) .done (.continue .done))
        | .cursor none =>
          .read fun count =>
            if cont ≠ 0 then .call (.cont cont contCls count) fun _ => .done else .done
        | _ => .done)
      (.call (.cont cont contCls (-1)) fun _ => .done)
      .done

/-- An argument of the type `'string'`; `undefined` becomes `NULL`. -/
def ccallString : Value → Option String
  | .string s => some s
  | _ => none

/-- An argument of the type `'array'`, written with `HEAP8.set`. -/
def ccallArray : Value → Option (List Int8)
  | .array items => some (items.map Int8.ofInt)
  | .bytes items => some (items.map UInt8.toInt8)
  | _ => none

/-- `peerstore_emscripten_iter_wrapper` up to the call of the processor; `expiry` is
where the number lies. -/
def iterWrapper (subSystem : Option String) (peer : List Int8) (key : Option String)
    (value : List Int8) (valueSize : Nat) (expiry : Ptr) : Record :=
  ⟨subSystem, peer, key, value, valueSize, expiry⟩

/-- The handler `request.onsuccess` of `peerstore_emscripten_iterate_records_int`;
`stackPointer` is what `stackAlloc` returns for the expiry. -/
def iterateOnsuccess (iter iterCls stackPointer : Ptr) : Result Object → Script Object Call Unit
  | .cursor (some cursor) =>
    match ccallArray (cursor.value.get "peer"), ccallArray (cursor.value.get "value") with
    | some peer, some value =>
      .call (.iter iter iterCls (some (iterWrapper (ccallString (cursor.value.get "subsystem")) peer
        (ccallString (cursor.value.get "key")) value value.length stackPointer)) 0)
        fun _ => .continue .done
    | _, _ => .abort .done
  | .cursor none => .call (.iter iter iterCls none 0) fun _ => .done
  | _ => .done

section

variable (UTF8ToString : Heap8 → Ptr → String)

def iterateRecordsInt (heap8 : Heap8) (subSystemPointer peerPointer keyPointer iter iterCls : Ptr)
    (stackPointer : Ptr) : Option (Script Object Call Unit) :=
  let subSystem := UTF8ToString heap8 subSystemPointer
  let peer := if peerPointer ≠ 0 then some (slice heap8 peerPointer 32) else none
  -- the empty text is false
  let key := if keyPointer ≠ 0 ∧ UTF8ToString heap8 keyPointer ≠ "" then
    some (UTF8ToString heap8 keyPointer) else none
  let keyRange := IndexedDB.Key.string subSystem ::
    ((peer.map fun peer => IndexedDB.Key.array (peer.map .number)).toList ++
      (key.map IndexedDB.Key.string).toList)
  let name := match peer, key with
    | none, none => "by_subsystem"
    | none, some _ => "by_key"
    | some _, none => "by_peer"
    | some _, some _ => "by_all"
  (schema.index name).map fun index =>
    .request (.cursor ⟨index, .only (.array keyRange), .next, none⟩)
      (iterateOnsuccess iter iterCls stackPointer)
      (.call (.iter iter iterCls none (-1)) fun _ => .done)
      .done

def storedObject (heap8 : Heap8) (subSystemPointer peerPointer keyPointer valuePointer : Ptr)
    (size : Nat) (expiry : Int) : Object :=
  [("sub_system", .string (UTF8ToString heap8 subSystemPointer)),
    ("peer", .array (slice heap8 peerPointer 32)),
    ("key", .string (UTF8ToString heap8 keyPointer)),
    ("value", .bytes (newUint8Array heap8 valuePointer size)),
    ("expiry", .number expiry)]

def storeRecordInt (heap8 : Heap8) (subSystemPointer peerPointer keyPointer valuePointer : Ptr)
    (size : Nat) (expiry : Int) (options : Nat) (cont contCls : Ptr) :
    Option (Script Object Call Unit) :=
  let put : Script Object Call Unit :=
    .request (.add (storedObject UTF8ToString heap8 subSystemPointer peerPointer keyPointer
        valuePointer size expiry))
      (fun _ => .call (.cont cont contCls 1) fun _ => .done)
      (.call (.cont cont contCls (-1)) fun _ => .done)
      .done
  if options = 1 then
    (schema.index "by_all").map fun index =>
      .request (.cursor ⟨index, .only (.array [.string (UTF8ToString heap8 subSystemPointer),
          .array ((slice heap8 peerPointer 32).map .number),
          .string (UTF8ToString heap8 keyPointer)]), .next, none⟩)
        (fun
          | .cursor (some cursor) =>
            .request (.delete cursor.primaryKey) (fun _ => .done) .done (.continue .done)
          | .cursor none => put
          | _ => .done)
        (.call (.cont cont contCls (-1)) fun _ => .done)
        .done
  else some put

structure StoreRecord where
  heap8 : Heap8
  subSystem : Ptr
  peer : Ptr
  key : Ptr
  value : Ptr
  size : Nat
  expiry : Nat
  options : Nat
  cont : Ptr
  contCls : Ptr

/-- `peerstore_emscripten_store_record`; the time becomes a double. -/
def StoreRecord.script (c : StoreRecord) : Option (Script Object Call Unit) :=
  storeRecordInt UTF8ToString c.heap8 c.subSystem c.peer c.key c.value c.size
    (Double.round c.expiry) c.options c.cont c.contCls

/-- A call of `peerstore_emscripten_iterate_records`; a peer or key that is not given is
the pointer 0. -/
structure IterateRecords where
  heap8 : Heap8
  subSystem : Ptr
  peer : Ptr
  key : Ptr
  iter : Ptr
  iterCls : Ptr

def IterateRecords.script (q : IterateRecords) (stackPointer : Ptr) :
    Option (Script Object Call Unit) :=
  iterateRecordsInt UTF8ToString q.heap8 q.subSystem q.peer q.key q.iter q.iterCls stackPointer

end

def expireRecords (now : Nat) (cont contCls : Ptr) : Option (Script Object Call Nat) :=
  expireRecordsInt (Double.round now) cont contCls

end GnunetWeb.Peerstore
