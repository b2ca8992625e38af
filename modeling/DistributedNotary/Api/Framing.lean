import DistributedNotary.Service.Message
import Mathlib.Tactic.Common

/-! Messages on the connections between notaries. A message is sent as its
length, a signed word of four bytes, and its bytes; the receiver reads both from
a connection whose reads end wherever the network ends them. What it finds
depends on the stream of bytes only. -/
namespace DistributedNotary.Api.Framing

open Service

inductive Panic where
  | nilConn
  | lenOutOfRange
  deriving DecidableEq

/-- The signed number with the low 32 bits of `n`. -/
def int32 (n : ℤ) : ℤ := n.bmod (2 ^ 32)

def writeInt32 (n : ℤ) : Bytes :=
  let u := (n % 2 ^ 32).toNat
  [UInt8.ofNat (u / 2 ^ 24), UInt8.ofNat (u / 2 ^ 16), UInt8.ofNat (u / 2 ^ 8), UInt8.ofNat u]

def readInt32 (b : Bytes) : ℤ := int32 (b.foldl (fun u x => u * 256 + x.toNat) 0 : ℕ)

/-- A message behind its length. -/
def totalBuf (buf : Bytes) : Bytes := writeInt32 (int32 buf.length) ++ buf

/-- What is written to a connection for a value that `marshal` encodes. Nothing is for nil. -/
def wsWriteJSON {α : Type*} (marshal : α → Except String Bytes) : Option α → Bytes
  | none => []
  | some data =>
    match marshal data with
    | .error _ => []
    | .ok buf => totalBuf buf

/-- What a connection has to read, in pieces: no read goes beyond the end of one. -/
abbrev Conn := List Bytes

/-- `ws.Read` into `k` bytes. -/
def Conn.read (k : ℕ) : Conn → Except String (Bytes × Conn)
  | [] => .error "EOF"
  | piece :: ws => .ok (piece.take k, if piece.length ≤ k then ws else piece.drop k :: ws)

theorem Conn.read_flatten {k : ℕ} {ws ws' : Conn} {b : Bytes} (h : ws.read k = .ok (b, ws')) :
    b = ws.flatten.take b.length ∧ ws'.flatten = ws.flatten.drop b.length ∧ b.length ≤ k := by
  cases ws with
  | nil => nomatch h
  | cons piece rest =>
    simp only [read, Except.ok.injEq, Prod.mk.injEq] at h
    obtain ⟨rfl, rfl⟩ := h
    rw [List.flatten_cons]
    split_ifs with hk
    · rw [List.take_of_length_le hk, List.take_left, List.drop_left]
      exact ⟨rfl, rfl, hk⟩
    · have hlen : (piece.take k).length = k := List.length_take_of_le (by omega)
      rw [hlen, List.take_append_of_le_length (by omega), List.drop_append_of_le_length (by omega), List.flatten_cons]
      exact ⟨rfl, rfl, le_rfl⟩

/-- A read uses up a piece or takes some bytes. -/
theorem Conn.read_lt {k : ℕ} (hk : 0 < k) {ws ws' : Conn} {b : Bytes} (h : ws.read k = .ok (b, ws')) :
    ws'.length + ws'.flatten.length < ws.length + ws.flatten.length := by
  cases ws with
  | nil => nomatch h
  | cons piece rest =>
    simp only [read, Except.ok.injEq, Prod.mk.injEq] at h
    obtain ⟨-, rfl⟩ := h
    split_ifs with hle
    · simp
      omega
    · simp
      omega

/-- Reads on until `buf` has `size` bytes. -/
def fill (size : ℕ) (buf : Bytes) (ws : Conn) : Except String Bytes × Conn :=
  if _short : buf.length < size then
    match _next : ws.read (size - buf.length) with
    | .error err => (.error err, ws)
    | .ok (more, ws') => fill size (buf ++ more) ws'
  else (.ok buf, ws)
termination_by ws.length + ws.flatten.length
decreasing_by exact Conn.read_lt (Nat.sub_pos_of_lt _short) _next

def readBytesFromWSConn : Option Conn → Except Panic (Except String Bytes × Conn)
  | none => .error .nilConn
  | some ws =>
    match fill 4 [] ws with
    | (.error err, ws) => .ok (.error err, ws)
    | (.ok lengthBytes, ws) =>
      let length := readInt32 lengthBytes
      if length > 1024 * 10 then .ok (.error "msg too long", ws)
      -- a slice cannot be made with a negative length
      else if length < 0 then .error .lenOutOfRange
      else .ok (fill length.toNat [] ws)

/-! ### The stream -/

theorem fill_of_le {size : ℕ} {buf : Bytes} {ws : Conn} (hbuf : buf.length ≤ size)
    (h : size ≤ buf.length + ws.flatten.length) :
    (fill size buf ws).1 = .ok (buf ++ ws.flatten.take (size - buf.length)) ∧
      (fill size buf ws).2.flatten = ws.flatten.drop (size - buf.length) := by
  fun_induction fill size buf ws with
  | case1 buf ws hshort err hread =>
    cases ws with
    | nil => simp at h; omega
    | cons piece rest => nomatch hread
  | case2 buf ws hshort more ws' hread ih =>
    obtain ⟨hmore, hrest, hle⟩ := Conn.read_flatten hread
    have hlen : more.length ≤ ws.flatten.length := by
      have := congrArg List.length hmore
      rw [List.length_take] at this
      omega
    obtain ⟨hok, hflat⟩ := ih (by rw [List.length_append]; omega) (by
      rw [List.length_append, hrest, List.length_drop]; omega)
    have hsize : size - buf.length = more.length + (size - (buf.length + more.length)) := by omega
    rw [hok, hflat, hrest, List.length_append, List.drop_drop, hsize, List.take_add, ← hmore, List.append_assoc]
    exact ⟨rfl, rfl⟩
  | case3 buf ws hshort =>
    rw [show size - buf.length = 0 by omega]
    simp

theorem fill_of_lt {size : ℕ} {buf : Bytes} {ws : Conn} (h : buf.length + ws.flatten.length < size) :
    (fill size buf ws).1 = .error "EOF" := by
  fun_induction fill size buf ws with
  | case1 buf ws hshort err hread =>
    cases ws with
    | nil => exact congrArg Except.error (Except.error.inj hread).symm
    | cons piece rest => nomatch hread
  | case2 buf ws hshort more ws' hread ih =>
    obtain ⟨hmore, hrest, hle⟩ := Conn.read_flatten hread
    apply ih
    have := congrArg List.length hmore
    rw [List.length_take] at this
    rw [List.length_append, hrest, List.length_drop]
    omega
  | case3 buf ws hshort => omega

/-- The first message of a stream and what follows it, or the reason why there is none. -/
def readStream (stream : Bytes) : Except Panic (Except String (Bytes × Bytes)) :=
  if stream.length < 4 then .ok (.error "EOF")
  else
    let length := readInt32 (stream.take 4)
    if length > 1024 * 10 then .ok (.error "msg too long")
    else if length < 0 then .error .lenOutOfRange
    else if (stream.drop 4).length < length.toNat then .ok (.error "EOF")
    else .ok (.ok ((stream.drop 4).take length.toNat, (stream.drop 4).drop length.toNat))

theorem exists_fill_of_le {size : ℕ} {ws : Conn} (h : size ≤ ws.flatten.length) :
    ∃ ws', fill size [] ws = (.ok (ws.flatten.take size), ws') ∧ ws'.flatten = ws.flatten.drop size := by
  obtain ⟨hok, hrest⟩ := fill_of_le (show ([] : Bytes).length ≤ size from Nat.zero_le size) (by simpa using h)
  exact ⟨_, Prod.ext hok rfl, hrest⟩

theorem exists_fill_of_lt {size : ℕ} {ws : Conn} (h : ws.flatten.length < size) :
    ∃ ws', fill size [] ws = (.error "EOF", ws') :=
  ⟨_, Prod.ext (fill_of_lt (by simpa using h)) rfl⟩

/-- A read of the connection has the outcome of a read of the stream and leaves what that leaves. -/
def Follows (read : Except Panic (Except String Bytes × Conn)) : Except Panic (Except String (Bytes × Bytes)) → Prop
  | .error p => read = .error p
  | .ok (.error err) => ∃ ws, read = .ok (.error err, ws)
  | .ok (.ok (buf, rest)) => ∃ ws, read = .ok (.ok buf, ws) ∧ ws.flatten = rest

theorem Follows.of_ok {buf : Bytes} {ws : Conn} {outcome : Except Panic (Except String (Bytes × Bytes))}
    (h : Follows (.ok (.ok buf, ws)) outcome) : outcome = .ok (.ok (buf, ws.flatten)) := by
  match outcome with
  | .error p => nomatch h
  | .ok (.error err) =>
    obtain ⟨_, h⟩ := h
    nomatch h
  | .ok (.ok (buf', rest)) =>
    obtain ⟨ws', h, rfl⟩ := h
    obtain ⟨hbuf, rfl⟩ := Prod.mk.inj (Except.ok.inj h)
    rw [Except.ok.inj hbuf]

theorem Follows.returns_iff {read : Except Panic (Except String Bytes × Conn)}
    {outcome : Except Panic (Except String (Bytes × Bytes))} (h : Follows read outcome) :
    (∃ r, read = .ok r) ↔ ∃ o, outcome = .ok o := by
  match outcome with
  | .error p =>
    rw [show read = .error p from h]
    simp
  | .ok (.error err) =>
    obtain ⟨_, rfl⟩ := h
    simp
  | .ok (.ok (buf, rest)) =>
    obtain ⟨_, rfl, -⟩ := h
    simp

/-- However a stream is fragmented, what is read is its first message. -/
theorem readBytesFromWSConn_follows (ws : Conn) :
    Follows (readBytesFromWSConn (some ws)) (readStream ws.flatten) := by
  unfold readStream readBytesFromWSConn
  simp only
  by_cases h4 : ws.flatten.length < 4
  · obtain ⟨ws', hfill⟩ := exists_fill_of_lt h4
    rw [if_pos h4, hfill]
    exact ⟨ws', rfl⟩
  · obtain ⟨ws', hfill, hrest⟩ := exists_fill_of_le (Nat.not_lt.mp h4)
    rw [if_neg h4, hfill, ← hrest]
    simp only
    generalize readInt32 (ws.flatten.take 4) = length
    by_cases hlong : length > 1024 * 10
    · rw [if_pos hlong, if_pos hlong]
      exact ⟨ws', rfl⟩
    rw [if_neg hlong, if_neg hlong]
    by_cases hneg : length < 0
    · rw [if_pos hneg, if_pos hneg]
      rfl
    rw [if_neg hneg, if_neg hneg]
    by_cases hshort : ws'.flatten.length < length.toNat
    · obtain ⟨ws'', hfill⟩ := exists_fill_of_lt hshort
      rw [if_pos hshort, hfill]
      exact ⟨ws'', rfl⟩
    · obtain ⟨ws'', hfill, hrest⟩ := exists_fill_of_le (Nat.not_lt.mp hshort)
      rw [if_neg hshort, hfill]
      exact ⟨ws'', rfl, hrest⟩

/-! ### Headers -/

theorem int32_of_le {n : ℕ} (h : n ≤ 1024 * 10) : int32 n = n := by
  unfold int32
  rw [Int.bmod_def]
  omega

theorem readInt32_writeInt32 (n : ℤ) : readInt32 (writeInt32 n) = int32 n := by
  have hu : (n % 2 ^ 32).toNat < 2 ^ 32 := by omega
  have hword : (writeInt32 n).foldl (fun u x => u * 256 + x.toNat) 0 = (n % 2 ^ 32).toNat := by
    simp only [writeInt32, List.foldl_cons, List.foldl_nil, UInt8.toNat_ofNat']
    omega
  rw [readInt32, hword, int32, int32, Int.toNat_of_nonneg (by omega), ← Int.emod_bmod n]
  norm_num

theorem length_writeInt32 (n : ℤ) : (writeInt32 n).length = 4 := rfl

/-- A length is negative when the sign bit of its first byte is set. -/
theorem readInt32_neg_iff {a b c d : UInt8} : readInt32 [a, b, c, d] < 0 ↔ 128 ≤ a := by
  have ha := a.toNat_lt
  have hb := b.toNat_lt
  have hc := c.toNat_lt
  have hd := d.toNat_lt
  have h128 : (128 : UInt8).toNat = 128 := rfl
  rw [UInt8.le_iff_toNat_le, h128, readInt32, int32, Int.bmod_def]
  simp only [List.foldl_cons, List.foldl_nil]
  split_ifs <;> omega

theorem readStream_header {header body : Bytes} (h : header.length = 4) : readStream (header ++ body) =
    if readInt32 header > 1024 * 10 then .ok (.error "msg too long")
    else if readInt32 header < 0 then .error .lenOutOfRange
    else if body.length < (readInt32 header).toNat then .ok (.error "EOF")
    else .ok (.ok (body.take (readInt32 header).toNat, body.drop (readInt32 header).toNat)) := by
  unfold readStream
  rw [if_neg (by rw [List.length_append]; omega), List.take_left' h, List.drop_left' h]

/-! ### Messages -/

theorem readInt32_header (buf : Bytes) : readInt32 (writeInt32 (int32 buf.length)) = int32 buf.length := by
  rw [readInt32_writeInt32, int32, int32, Int.bmod_bmod]

theorem readStream_totalBuf {buf : Bytes} (h : buf.length ≤ 1024 * 10) (rest : Bytes) :
    readStream (totalBuf buf ++ rest) = .ok (.ok (buf, rest)) := by
  rw [totalBuf, List.append_assoc, readStream_header (length_writeInt32 _), readInt32_header, int32_of_le h,
    if_neg (by omega), if_neg (by omega), if_neg (by rw [List.length_append]; omega), Int.toNat_natCast,
    List.take_left, List.drop_left]

/-- A message beyond the limit is not what is read. -/
theorem readStream_totalBuf_ne {buf : Bytes} (h : ¬ buf.length ≤ 1024 * 10) (rest rest' : Bytes) :
    readStream (totalBuf buf ++ rest) ≠ .ok (.ok (buf, rest')) := by
  intro hread
  rw [totalBuf, List.append_assoc, readStream_header (length_writeInt32 _)] at hread
  generalize readInt32 (writeInt32 (int32 buf.length)) = length at hread
  by_cases hlong : length > 1024 * 10
  · rw [if_pos hlong] at hread
    nomatch hread
  rw [if_neg hlong] at hread
  by_cases hneg : length < 0
  · rw [if_pos hneg] at hread
    nomatch hread
  rw [if_neg hneg] at hread
  by_cases hshort : (buf ++ rest).length < length.toNat
  · rw [if_pos hshort] at hread
    nomatch hread
  rw [if_neg hshort] at hread
  have hbuf : (buf ++ rest).take length.toNat = buf := (Prod.mk.inj (Except.ok.inj (Except.ok.inj hread))).1
  have hlen := congrArg List.length hbuf
  rw [List.length_take] at hlen
  omega

/-- The messages of `n` calls in a row, when each returns one, and what is left. -/
def receive (ws : Conn) : ℕ → Option (List Bytes × Conn)
  | 0 => some ([], ws)
  | n + 1 =>
    match readBytesFromWSConn (some ws) with
    | .ok (.ok buf, ws) => (receive ws n).map fun (bufs, ws) => (buf :: bufs, ws)
    | _ => none

/-- The messages of a stream are read exactly when none is beyond the limit. -/
theorem receive_iff {bufs : List Bytes} {ws : Conn} (hws : ws.flatten = bufs.flatMap totalBuf) :
    (∃ ws', receive ws bufs.length = some (bufs, ws') ∧ ws'.flatten = []) ↔ ∀ buf ∈ bufs, buf.length ≤ 1024 * 10 := by
  induction bufs generalizing ws with
  | nil => simpa [receive] using hws
  | cons buf bufs ih =>
    have hfollows := readBytesFromWSConn_follows ws
    rw [hws, List.flatMap_cons] at hfollows
    rw [List.forall_mem_cons, List.length_cons, receive]
    by_cases hle : buf.length ≤ 1024 * 10
    · rw [readStream_totalBuf hle] at hfollows
      obtain ⟨next, hread, hrest⟩ := hfollows
      rw [hread, and_iff_right hle, ← ih hrest]
      simp
    · refine ⟨?_, fun h => absurd h.1 hle⟩
      rintro ⟨ws', hreceive, -⟩
      split at hreceive
      · next buf' next hread =>
        obtain ⟨⟨bufs', ws''⟩, -, heq⟩ := Option.map_eq_some_iff.mp hreceive
        obtain rfl : buf' = buf := (List.cons.inj (Prod.mk.inj heq).1).1
        rw [hread] at hfollows
        exact absurd hfollows.of_ok (readStream_totalBuf_ne hle _ _)
      · nomatch hreceive

/-- The call panics when there is a length and it is negative, and only then. -/
theorem readBytesFromWSConn_returns_iff (ws : Conn) : (∃ outcome, readBytesFromWSConn (some ws) = .ok outcome) ↔
    ¬ ∃ a b c d rest, ws.flatten = a :: b :: c :: d :: rest ∧ 128 ≤ a := by
  rw [(readBytesFromWSConn_follows ws).returns_iff]
  generalize ws.flatten = stream
  constructor
  · rintro ⟨outcome, houtcome⟩ ⟨a, b, c, d, rest, rfl, ha⟩
    have hneg := readInt32_neg_iff (b := b) (c := c) (d := d) |>.mpr ha
    rw [show a :: b :: c :: d :: rest = [a, b, c, d] ++ rest from rfl, readStream_header rfl,
      if_neg (by omega), if_pos hneg] at houtcome
    nomatch houtcome
  · intro h
    match stream with
    | [] | [_] | [_, _] | [_, _, _] => exact ⟨_, rfl⟩
    | a :: b :: c :: d :: rest =>
      have hneg : ¬ readInt32 [a, b, c, d] < 0 := fun hneg => h ⟨a, b, c, d, rest, rfl, readInt32_neg_iff.mp hneg⟩
      rw [show a :: b :: c :: d :: rest = [a, b, c, d] ++ rest from rfl, readStream_header rfl, if_neg hneg]
      split_ifs
      · exact ⟨_, rfl⟩
      · exact ⟨_, rfl⟩
      · exact ⟨_, rfl⟩

section

variable {α : Type*} (marshal : α → Except String Bytes)

/-- What is sent of a list of values. -/
def messages (datas : List (Option α)) : List Bytes :=
  datas.filterMap fun data => data.bind fun d => (marshal d).toOption

theorem flatMap_wsWriteJSON (datas : List (Option α)) :
    datas.flatMap (wsWriteJSON marshal) = (messages marshal datas).flatMap totalBuf := by
  induction datas with
  | nil => rfl
  | cons data datas ih =>
    rw [List.flatMap_cons, ih]
    cases data with
    | none => rfl
    | some d =>
      rw [wsWriteJSON]
      cases hd : marshal d with
      | error err => simp [messages, hd, Except.toOption]
      | ok buf => simp [messages, hd, Except.toOption]

/-- The pieces in which a stream arrives. -/
structure Fragments (stream : Bytes) where
  pieces : Conn
  flatten_eq : pieces.flatten = stream

/-- The messages that are sent are those that are received just when none is longer than ten
kilobytes, and a call returns whatever length a peer sends that is not negative. -/
theorem framing (datas : List (Option α)) (conn : Fragments (datas.flatMap (wsWriteJSON marshal))) (peer : Conn) :
    ((∃ ws, receive conn.pieces (messages marshal datas).length = some (messages marshal datas, ws) ∧
        ws.flatten = []) ↔ ∀ buf ∈ messages marshal datas, buf.length ≤ 1024 * 10) ∧
      ((¬ ∃ a b c d rest, peer.flatten = a :: b :: c :: d :: rest ∧ 128 ≤ a) →
        ∃ outcome, readBytesFromWSConn (some peer) = .ok outcome) :=
  ⟨receive_iff (conn.flatten_eq.trans (flatMap_wsWriteJSON marshal datas)),
    (readBytesFromWSConn_returns_iff peer).mpr⟩

end

/-- A message that is one byte too long is not received, and the length -1 is a panic. -/
theorem framing_fails :
    ¬ (∃ ws, receive [totalBuf (List.replicate 10241 0x31)] 1 = some ([List.replicate 10241 0x31], ws) ∧
        ws.flatten = []) ∧
      ¬ ∃ outcome, readBytesFromWSConn (some [[0xff, 0xff, 0xff, 0xff]]) = .ok outcome := by
  constructor
  · intro h
    have hws : [totalBuf (List.replicate 10241 0x31)].flatten = [List.replicate 10241 0x31].flatMap totalBuf := by
      rw [List.flatten_singleton, List.flatMap_singleton]
    have hle := (receive_iff hws).mp h _ (List.mem_singleton_self _)
    rw [List.length_replicate] at hle
    omega
  · rw [readBytesFromWSConn_returns_iff, not_not]
    exact ⟨0xff, 0xff, 0xff, 0xff, [], rfl, by decide⟩

end DistributedNotary.Api.Framing
