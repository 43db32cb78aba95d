import GnunetWeb.Worker.Startup

/-!
# The random bytes of a worker

The device `/dev/urandom` of `pre.js`.  Workers have no source of random bytes: the pool comes
from a window, with its `init` message, and a read takes its bytes off and erases them.

Proved here:

* `readLoop_eq`: the loop of `read` moves the front of what is left to the buffer;
* `steps_since`: what the reads after an `init` have taken off its pool;
* `random_bytes_once`: in every run the bytes of a pool are handed out once.
-/

namespace GnunetWeb.Urandom

open EventSystem

/-- `random_bytes` and `random_offset` -/
structure Pool where
  randomBytes : List UInt8
  randomOffset : Nat
  offset_le : randomOffset ≤ randomBytes.length

/-- The arguments of `read` that it uses: the caller has room for the bytes that it asks for. -/
structure Request where
  buffer : List UInt8
  offset : Nat
  length : Nat
  room : offset + length ≤ buffer.length

/-- What a read returns, and what it makes of the buffer. -/
structure Response where
  request : Request
  returned : Nat
  buffer : List UInt8

inductive Event where
  | init (message : Startup.Init)
  | read (request : Request)

/-- `buffer[offset+i] = random_bytes[random_offset]; random_bytes[random_offset++] = 0` -/
def Pool.take (pool : Pool) (h : pool.randomOffset < pool.randomBytes.length) : UInt8 × Pool :=
  (pool.randomBytes[pool.randomOffset],
    ⟨pool.randomBytes.set pool.randomOffset 0, pool.randomOffset + 1, by
      rw [List.length_set]
      exact h⟩)

/-- The loop of `read`, with `n` rounds left until `i` is the length. -/
def readLoop (offset : Nat) : Nat → Nat → Pool → List UInt8 → Nat × Pool × List UInt8
  | 0, i, pool, buffer => (i, pool, buffer)
  | n + 1, i, pool, buffer =>
    if h : pool.randomOffset < pool.randomBytes.length then
      readLoop offset n (i + 1) (pool.take h).2 (buffer.set (offset + i) (pool.take h).1)
    else (i, pool, buffer)

/-- The `read` operation of the device -/
def read (pool : Pool) (request : Request) : Pool × Response :=
  let (i, pool, buffer) := readLoop request.offset request.length 0 pool request.buffer
  (pool, ⟨request, i, buffer⟩)

/-- What the `init` branch of `get_message` does to the pool -/
def getInit (message : Startup.Init) : Pool := ⟨message.randomBytes, 0, Nat.zero_le _⟩

def step (pool : Pool) : Event → Option (Pool × List Response)
  | .init message => some (getInit message, [])
  | .read request => some ((read pool request).1, [(read pool request).2])

/-- Before the first window there is nothing to read. -/
def system : EventSystem Pool Event Response := ⟨⟨[], 0, Nat.zero_le _⟩, step⟩

/-- The bytes that a read has delivered. -/
def Response.bytes (o : Response) : List UInt8 := (o.buffer.drop o.request.offset).take o.returned

/-- The pool of a worker that starts. -/
theorem getInit_startup (st : Startup.State) (message : Startup.Init) :
    (st.getInit message).1.randomBytes = (getInit message).randomBytes ∧
      (st.getInit message).1.randomOffset = (getInit message).randomOffset := by
  rw [Startup.State.getInit, Startup.State.removeRunDependency]
  split
  · exact ⟨rfl, rfl⟩
  · exact ⟨rfl, rfl⟩

/-! ## One read -/

/-- **The loop.**  Of the bytes `rest` that are left, the first `min n rest.length` come to the
buffer, and zeros to their place. -/
theorem readLoop_eq (offset n : Nat) :
    ∀ (i : Nat) (pool : Pool) (used rest front back : List UInt8),
      pool.randomBytes = used ++ rest → pool.randomOffset = used.length →
      front.length = offset + i → n ≤ back.length →
      ∃ pool', readLoop offset n i pool (front ++ back) =
          (i + min n rest.length, pool',
            front ++ rest.take (min n rest.length) ++ back.drop (min n rest.length)) ∧
        pool'.randomBytes = used ++ List.replicate (min n rest.length) 0 ++
          rest.drop (min n rest.length) ∧
        pool'.randomOffset = used.length + min n rest.length := by
  induction n with
  | zero =>
    intro i pool used rest front back hb ho _ _
    exact ⟨pool, by simp [readLoop], by simpa using hb, by simpa using ho⟩
  | succ n ih =>
    intro i pool used rest front back hb ho hf hn
    cases rest with
    | nil =>
      have hlt : ¬pool.randomOffset < pool.randomBytes.length := by simp [hb, ho]
      exact ⟨pool, by simp [readLoop, hlt], by simpa using hb, by simpa using ho⟩
    | cons b rest =>
      have hlt : pool.randomOffset < pool.randomBytes.length := by simp [hb, ho]
      obtain ⟨c, back, rfl⟩ := List.exists_cons_of_length_pos (by omega : 0 < back.length)
      have hbyte : (pool.take hlt).1 = b := by simp [Pool.take, hb, ho]
      have hbytes : (pool.take hlt).2.randomBytes = (used ++ [0]) ++ rest := by
        simp [Pool.take, hb, ho]
      have hoffset : (pool.take hlt).2.randomOffset = (used ++ [0]).length := by
        simp [Pool.take, ho]
      have hset : (front ++ c :: back).set (offset + i) b = (front ++ [b]) ++ back := by
        simp [← hf]
      obtain ⟨pool', hloop, hb', ho'⟩ := ih (i + 1) _ (used ++ [0]) rest (front ++ [b]) back
        hbytes hoffset (by simp [hf]; omega) (by simpa using hn)
      have hmin : min (n + 1) (b :: rest).length = min n rest.length + 1 := by
        rw [List.length_cons]
        omega
      refine ⟨pool', ?_, ?_, ?_⟩
      · rw [readLoop, dif_pos hlt, hbyte, hset, hloop, hmin]
        simp only [Prod.mk.injEq, true_and]
        exact ⟨by omega, by simp⟩
      · rw [hb', hmin, List.replicate_succ]
        simp
      · rw [ho', hmin]
        simp
        omega

/-- What one read does: `left` is the part of the pool that is not used up. -/
theorem read_eq {pool : Pool} {used left : List UInt8} (q : Request)
    (hb : pool.randomBytes = used ++ left) (ho : pool.randomOffset = used.length) :
    (read pool q).2.request = q ∧
    (read pool q).2.returned = min q.length left.length ∧
    (read pool q).2.bytes = left.take (min q.length left.length) ∧
    (read pool q).2.buffer = q.buffer.take q.offset ++ left.take (min q.length left.length) ++
      q.buffer.drop (q.offset + min q.length left.length) ∧
    (read pool q).1.randomBytes = used ++ List.replicate (min q.length left.length) 0 ++
      left.drop (min q.length left.length) ∧
    (read pool q).1.randomOffset = used.length + min q.length left.length := by
  have hroom := q.room
  have hfront : (q.buffer.take q.offset).length = q.offset := by
    rw [List.length_take]
    omega
  obtain ⟨pool', hloop, hb', ho'⟩ := readLoop_eq q.offset q.length 0 pool used left
    (q.buffer.take q.offset) (q.buffer.drop q.offset) hb ho (by rw [hfront]; rfl)
    (by rw [List.length_drop]; omega)
  rw [List.take_append_drop, Nat.zero_add, List.drop_drop] at hloop
  have hread : read pool q = (pool', ⟨q, min q.length left.length,
      q.buffer.take q.offset ++ left.take (min q.length left.length) ++
        q.buffer.drop (q.offset + min q.length left.length)⟩) := by
    rw [read, hloop]
  rw [hread]
  refine ⟨rfl, rfl, ?_, rfl, hb', ho'⟩
  simp only [Response.bytes]
  rw [List.append_assoc, List.drop_left' hfront, List.take_left']
  rw [List.length_take]
  omega

/-! ## Any number of reads -/

/-- The bytes that the reads have delivered, one after the other. -/
def delivered (os : List Response) : List UInt8 := os.flatMap Response.bytes

theorem delivered_append (os ps : List Response) :
    delivered (os ++ ps) = delivered os ++ delivered ps :=
  List.flatMap_append

/-- A read has changed no byte of the buffer but those that it returned. -/
structure Framed (o : Response) : Prop where
  bytes : o.bytes.length = o.returned
  buffer : o.buffer = o.request.buffer.take o.request.offset ++ o.bytes ++
    o.request.buffer.drop (o.request.offset + o.returned)

/-- What holds after an `init` and the reads `rs`, with the responses `os`. -/
structure Since (message : Startup.Init) (rs : List Request) (os : List Response)
    (pool : Pool) : Prop where
  requests : os.map Response.request = rs
  once : delivered os <+: message.randomBytes
  offset : pool.randomOffset = (delivered os).length
  pool : pool.randomBytes =
    List.replicate (delivered os).length 0 ++ message.randomBytes.drop (delivered os).length
  returned : ∀ before o after, os = before ++ o :: after → o.returned =
    min o.request.length (message.randomBytes.length - (delivered before).length)

theorem since_init (message : Startup.Init) : Since message [] [] (getInit message) where
  requests := rfl
  once := ⟨message.randomBytes, rfl⟩
  offset := rfl
  pool := rfl
  returned := by
    intro before o after h
    simp at h

theorem Since.read {message : Startup.Init} {rs : List Request} {os : List Response} {pool : Pool}
    (h : Since message rs os pool) (q : Request) :
    Since message (rs ++ [q]) (os ++ [(read pool q).2]) (read pool q).1 := by
  obtain ⟨left, hleft⟩ := h.once
  have hdrop : message.randomBytes.drop (delivered os).length = left := by
    rw [← hleft, List.drop_left]
  have hpool := h.pool
  rw [hdrop] at hpool
  obtain ⟨hq, hn, hbytes, -, hb, ho⟩ := read_eq q hpool (by rw [h.offset, List.length_replicate])
  have hD : delivered (os ++ [(Urandom.read pool q).2]) =
      delivered os ++ left.take (min q.length left.length) := by
    rw [delivered_append, ← hbytes]
    simp [delivered]
  have hlen : (delivered (os ++ [(Urandom.read pool q).2])).length =
      (delivered os).length + min q.length left.length := by
    rw [hD, List.length_append, List.length_take]
    omega
  refine ⟨by rw [List.map_append, h.requests, List.map_singleton, hq], ?_, ?_, ?_, ?_⟩
  · rw [hD, ← hleft]
    exact ⟨left.drop (min q.length left.length), by
      rw [List.append_assoc, List.take_append_drop]⟩
  · rw [ho, hlen, List.length_replicate]
  · rw [hb, hlen, ← hleft, List.drop_append, ← List.replicate_append_replicate]
    simp
  · intro before o after he
    rcases List.eq_nil_or_concat after with rfl | ⟨after, o', rfl⟩
    · obtain ⟨rfl, ho⟩ := List.append_inj' he rfl
      obtain rfl := List.singleton_inj.mp ho
      rw [hn, hq, ← hleft, List.length_append]
      omega
    · rw [List.concat_eq_append, ← List.cons_append, ← List.append_assoc] at he
      exact h.returned before o after (List.append_inj' he rfl).1

theorem read_framed {pool : Pool} (q : Request) : Framed (read pool q).2 := by
  have hpool : pool.randomBytes = pool.randomBytes.take pool.randomOffset ++
      pool.randomBytes.drop pool.randomOffset := (List.take_append_drop _ _).symm
  obtain ⟨hq, hn, hbytes, hbuffer, -⟩ := read_eq q hpool (by
    rw [List.length_take, Nat.min_eq_left pool.offset_le])
  refine ⟨?_, ?_⟩
  · rw [hbytes, hn, List.length_take]
    omega
  · rw [hbuffer, hq, hn, hbytes]

theorem steps_since {s t : Pool} {message : Startup.Init} {rs : List Request}
    {os : List Response} (h : system.Steps anyEvent s (.init message :: rs.map .read) os t) :
    Since message rs os t := by
  induction rs using List.reverseRecOn generalizing os t with
  | nil =>
    rw [List.map_nil, ← List.nil_append [Event.init message]] at h
    obtain ⟨os', o, u, hbefore, -, hst, rfl⟩ := h.of_snoc
    obtain ⟨rfl, -⟩ := hbefore.of_nil
    cases hst
    exact since_init message
  | append_singleton rs q ih =>
    rw [List.map_append, ← List.cons_append] at h
    obtain ⟨os', o, u, hbefore, -, hst, rfl⟩ := Steps.of_snoc h
    cases hst
    exact (ih hbefore).read q

/-- **Random bytes are handed out once.**  In every run, what the reads after one `init` and
before the next have delivered is a front part of the pool of this `init`; each read returns
what it asks for, or what is left; what has been delivered is erased, and the rest of the pool
unchanged; and no read of the run has written anything else to its buffer. -/
theorem random_bytes_once {es : List Event} {message : Startup.Init} {rs : List Request}
    {os : List Response} {pool : Pool}
    (h : system.Run anyEvent (es ++ .init message :: rs.map .read) os pool) :
    (∃ os₁ os₂, os = os₁ ++ os₂ ∧ Since message rs os₂ pool) ∧ ∀ o ∈ os, Framed o := by
  constructor
  · obtain ⟨os₁, os₂, u, -, h₂, rfl⟩ := h.of_append
    exact ⟨os₁, os₂, rfl, steps_since h₂⟩
  · refine h.history (P := fun os _ => ∀ o ∈ os, Framed o) ?_ (by simp)
    intro os s e s' o hos _ hst
    cases e with
    | init message =>
      cases hst
      simpa using hos
    | read q =>
      cases hst
      intro o ho
      rcases List.mem_append.mp ho with ho | ho
      · exact hos o ho
      · rw [List.mem_singleton.mp ho]
        exact read_framed q

/-- A second window's `init` comes between two reads, and the last read asks for more bytes
than are left. -/
theorem random_bytes_once_two_windows :
    ∃ os pool, Since ⟨2, [], [7, 8, 9]⟩
      [⟨[0, 0, 0, 0], 1, 2, by decide⟩, ⟨[0, 0], 0, 2, by decide⟩] os pool := by
  have h : ∃ os pool, system.Run anyEvent ([.init ⟨1, [], [5, 6]⟩, .read ⟨[0], 0, 1, by decide⟩] ++
      .init ⟨2, [], [7, 8, 9]⟩ ::
        [⟨[0, 0, 0, 0], 1, 2, by decide⟩, ⟨[0, 0], 0, 2, by decide⟩].map .read) os pool :=
    ⟨_, _, .of_exec (fun _ _ => trivial) rfl⟩
  obtain ⟨os, pool, h⟩ := h
  obtain ⟨⟨os₁, os₂, -, hsince⟩, -⟩ := random_bytes_once h
  exact ⟨os₂, pool, hsince⟩

end GnunetWeb.Urandom
