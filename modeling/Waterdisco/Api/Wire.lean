import Mathlib.Data.List.Induction
import Waterdisco.Lib.Words

/-!
# The frames between the program and the core

Requests and responses on the local socket, little-endian.

    request    id 4   method length 2   method   payload length 4   payload
    response   id 4   status 1          payload length 4            payload

`Call` writes requests and `Serve` reads them with reads that block until a field is
whole.  `writeResponse` writes responses and `processBuffer` cuts them off the front of
a buffer that grows by whatever each read brings.

    Serve reads the requests that were framed, however they are split    (serve_frames)
    what each waiting call is handed, however the responses are split    (onReadyRead_spec)

The length of a payload goes through a 32-bit `int`: from `2^31` bytes on a call is also
handed whatever is behind its payload in the buffer (`delivered_iff`).
-/

namespace Waterdisco.Api

open List Nat Option

abbrev Bytes := List UInt8

/-! ## Requests -/

structure Request where
  id : UInt32
  method : Bytes
  payload : Bytes
deriving DecidableEq

/-- The frame of `Call`. -/
def Request.frame (r : Request) : Bytes :=
  leBytes 4 r.id.toNat ++ leBytes 2 r.method.length ++ r.method ++ leBytes 4 r.payload.length ++ r.payload

/-- `io.ReadFull`: the next `n` bytes of a connection, which hands them out in pieces. -/
def readFull : Nat → List Bytes → Option (Bytes × List Bytes)
  | 0, conn => some ([], conn)
  | _ + 1, [] => none
  | n + 1, piece :: rest =>
    if n + 1 ≤ piece.length then some (piece.take (n + 1), piece.drop (n + 1) :: rest)
    else (readFull (n + 1 - piece.length) rest).map (fun (bytes, conn) => (piece ++ bytes, conn))

/-- One round of `Serve`; `none` ends it. -/
def readRequest (conn : List Bytes) : Option (Request × List Bytes) := do
  let (reqId, conn) ← readFull 4 conn
  let (methodLen, conn) ← readFull 2 conn
  let (method, conn) ← readFull (leNat methodLen) conn
  let (payloadLen, conn) ← readFull 4 conn
  let (payload, conn) ← readFull (leNat payloadLen) conn
  return (⟨UInt32.ofNat (leNat reqId), method, payload⟩, conn)

/-- The requests `Serve` dispatches. -/
def serveLoop : Nat → List Bytes → List Request
  | 0, _ => []
  | fuel + 1, conn =>
    match readRequest conn with
    | none => []
    | some (r, conn) => r :: serveLoop fuel conn

/-- Each round takes ten bytes or more. -/
def serve (conn : List Bytes) : List Request := serveLoop (conn.flatten.length + 1) conn

variable {n : Nat} {conn : List Bytes} (r : Response)

theorem readFull_spec {conn' : List Bytes} {bytes : Bytes} (h : readFull n conn = some (bytes, conn')) :
    conn.flatten = bytes ++ conn'.flatten ∧ bytes.length = n := by
  induction conn generalizing n bytes conn' with
  | nil =>
    cases n with
    | zero => cases h; exact ⟨rfl, rfl⟩
    | succ n => cases h
  | cons piece conn ih =>
    cases n with
    | zero => cases h; exact ⟨rfl, rfl⟩
    | succ n =>
      rw [readFull] at h
      split at h
      · cases h
        constructor
        · simp [← append_assoc]
        · rw [length_take]
          omega
      · obtain ⟨⟨tail, c⟩, hread, heq⟩ := map_eq_some_iff.mp h
        cases heq
        obtain ⟨hflat, hlen⟩ := ih hread
        constructor
        · rw [flatten_cons, hflat, append_assoc]
        · rw [length_append, hlen]
          omega

theorem readFull_some (h : n ≤ conn.flatten.length) :
    ∃ read, readFull n conn = some read := by
  induction conn generalizing n with
  | nil =>
    have hn : n = 0 := le_zero.mp h
    subst hn
    exact ⟨_, rfl⟩
  | cons piece conn ih =>
    cases n with
    | zero => exact ⟨_, rfl⟩
    | succ n =>
      rw [readFull]
      split
      · exact ⟨_, rfl⟩
      rw [flatten_cons, length_append] at h
      have hrest : n + 1 - piece.length ≤ conn.flatten.length := by omega
      obtain ⟨read, hread⟩ := ih hrest
      exact ⟨_, by rw [hread]; rfl⟩

theorem readFull_of_append {bytes rest : Bytes} (h : conn.flatten = bytes ++ rest)
    (hn : bytes.length = n) : ∃ conn', readFull n conn = some (bytes, conn') ∧ conn'.flatten = rest := by
  obtain ⟨⟨bytes', conn'⟩, hread⟩ := @readFull_some n conn (by rw [h, length_append]; omega)
  obtain ⟨hflat, hlen⟩ := readFull_spec hread
  obtain ⟨hbytes, hrest⟩ := append_inj (hflat.symm.trans h) (hlen.trans hn.symm)
  exact ⟨conn', by rw [hread, hbytes], hrest⟩

theorem readRequest_frame {r : Request} {rest : Bytes} (h : conn.flatten = r.frame ++ rest)
    (hmethod : r.method.length < 2 ^ 16) (hpayload : r.payload.length < 2 ^ 32) :
    ∃ conn', readRequest conn = some (r, conn') ∧ conn'.flatten = rest := by
  simp only [Request.frame, append_assoc] at h
  obtain ⟨conn₁, h₁, hf₁⟩ := readFull_of_append h (length_leBytes 4 _)
  obtain ⟨conn₂, h₂, hf₂⟩ := readFull_of_append hf₁ (length_leBytes 2 _)
  obtain ⟨conn₃, h₃, hf₃⟩ := readFull_of_append hf₂ rfl
  obtain ⟨conn₄, h₄, hf₄⟩ := readFull_of_append hf₃ (length_leBytes 4 _)
  obtain ⟨conn₅, h₅, hf₅⟩ := readFull_of_append hf₄ rfl
  refine ⟨conn₅, ?_, hf₅⟩
  have hid : leNat (leBytes 4 r.id.toNat) = r.id.toNat := leNat_leBytes (UInt32.toNat_lt r.id)
  have hm : leNat (leBytes 2 r.method.length) = r.method.length := leNat_leBytes hmethod
  have hp : leNat (leBytes 4 r.payload.length) = r.payload.length := leNat_leBytes hpayload
  simp [readRequest, h₁, h₂, h₃, h₄, h₅, hid, hm, hp]

/-- A connection with nothing more to give ends the loop. -/
theorem readRequest_end (h : conn.flatten = []) : readRequest conn = none := by
  cases hread : readFull 4 conn with
  | none => simp [readRequest, hread]
  | some read =>
    obtain ⟨hflat, hlen⟩ := readFull_spec hread
    rw [h] at hflat
    have := congrArg length hflat
    simp only [length_nil, length_append] at this
    omega

theorem serveLoop_frames (fuel : Nat) {rs : List Request} (h : conn.flatten = rs.flatMap Request.frame)
    (hmethod : ∀ r ∈ rs, r.method.length < 2 ^ 16) (hpayload : ∀ r ∈ rs, r.payload.length < 2 ^ 32)
    (hfuel : rs.length < fuel) : serveLoop fuel conn = rs := by
  induction fuel generalizing conn rs with
  | zero => omega
  | succ fuel ih =>
    cases rs with
    | nil => rw [serveLoop, readRequest_end h]
    | cons r rs =>
      obtain ⟨conn', hread, hrest⟩ := readRequest_frame h (hmethod r (.head _)) (hpayload r (.head _))
      rw [serveLoop, hread]
      have hrec := ih hrest (fun s hs => hmethod s (.tail _ hs))
        (fun s hs => hpayload s (.tail _ hs)) (by simpa using hfuel)
      exact congrArg (r :: ·) hrec

theorem length_le_frames (rs : List Request) : rs.length ≤ (rs.flatMap Request.frame).length := by
  induction rs with
  | nil => simp
  | cons r rs ih =>
    have hpos : 10 ≤ r.frame.length := by
      simp only [Request.frame, length_append, length_leBytes]
      omega
    rw [flatMap_cons, length_append, length_cons]
    omega

/-- **The core reads the requests that were framed**, however the stream is split. -/
theorem serve_frames {rs : List Request} (h : conn.flatten = rs.flatMap Request.frame)
    (hmethod : ∀ r ∈ rs, r.method.length < 2 ^ 16) (hpayload : ∀ r ∈ rs, r.payload.length < 2 ^ 32) :
    serve conn = rs := by
  refine serveLoop_frames _ h hmethod hpayload ?_
  have := length_le_frames rs
  rw [h]
  omega

/-! ## Responses -/

structure Response where
  id : UInt32
  status : UInt8
  data : Bytes
deriving DecidableEq

def Response.frame (r : Response) : Bytes := leBytes 4 r.id.toNat ++ r.status :: leBytes 4 r.data.length ++ r.data

/-- `static_cast<int>` of a 32-bit length. -/
def toInt (n : Nat) : Int := if n < 2 ^ 31 then n else n - 2 ^ 32

/-- `QByteArray::mid`: a negative length is all that is left. -/
def mid (bytes : Bytes) (pos : Nat) (len : Int) : Bytes :=
  if len < 0 then bytes.drop pos else (bytes.drop pos).take len.toNat

/-- The first response of a buffer, once it is whole, and what is behind it. -/
def nextFrame (buf : Bytes) : Option (Response × Bytes) :=
  if buf.length < 9 then none
  else
    let reqId := leNat (buf.take 4)
    let status := buf.getD 4 0
    let dataLen := leNat ((buf.drop 5).take 4)
    if buf.length < 9 + dataLen then none
    else some (⟨UInt32.ofNat reqId, status, mid buf 9 (toInt dataLen)⟩, buf.drop (9 + dataLen))

/-- The reading side of the channel.  `κ` is what stands for a waiting call. -/
structure Reader (κ : Type) where
  readBuf : Bytes := []
  pending : List (UInt32 × κ) := []
  /-- What waiting calls were handed, in order. -/
  handed : List (κ × UInt8 × Bytes) := []

section
variable {κ : Type}

/-- The call that waits for a response is taken out of `pending` and handed its status and data. -/
def Reader.hand (rd : Reader κ) (r : Response) : Reader κ :=
  match rd.pending.lookup r.id with
  | none => rd
  | some call =>
    { rd with
      pending := rd.pending.filter (fun entry => entry.1 != r.id)
      handed := rd.handed ++ [(call, r.status, r.data)] }

def processLoop : Nat → Reader κ → Reader κ
  | 0, rd => rd
  | fuel + 1, rd =>
    match nextFrame rd.readBuf with
    | none => rd
    | some (r, rest) => processLoop fuel ({ rd with readBuf := rest }.hand r)

/-- Each round takes nine bytes or more. -/
def Reader.processBuffer (rd : Reader κ) : Reader κ := processLoop rd.readBuf.length rd

def Reader.onReadyRead (rd : Reader κ) (bytes : Bytes) : Reader κ :=
  { rd with readBuf := rd.readBuf ++ bytes }.processBuffer

end

open Reader (hand onReadyRead)

/-! ### One frame -/

/-- A response as it is handed over with `behind` still in the buffer. -/
def Response.seen (r : Response) (behind : Bytes) : Response :=
  if r.data.length < 2 ^ 31 then r else { r with data := r.data ++ behind }

open Response (frame seen)

theorem length_frame : r.frame.length = 9 + r.data.length := by
  simp only [frame, length_append, length_cons, length_leBytes]

theorem frame_header (rest : Bytes) (h : r.data.length < 2 ^ 32) :
    UInt32.ofNat (leNat ((r.frame ++ rest).take 4)) = r.id ∧ (r.frame ++ rest).getD 4 0 = r.status ∧
      leNat (((r.frame ++ rest).drop 5).take 4) = r.data.length ∧
      (r.frame ++ rest).drop 9 = r.data ++ rest := by
  have hid : leNat (leBytes 4 r.id.toNat) = r.id.toNat := leNat_leBytes (UInt32.toNat_lt r.id)
  have hlen : leNat (leBytes 4 r.data.length) = r.data.length := leNat_leBytes h
  have h4 : (leBytes 4 r.id.toNat).length = 4 := length_leBytes 4 _
  have h4' : (leBytes 4 r.data.length).length = 4 := length_leBytes 4 _
  have hframe : r.frame ++ rest =
      leBytes 4 r.id.toNat ++ ([r.status] ++ (leBytes 4 r.data.length ++ (r.data ++ rest))) := by
    simp [frame]
  rw [hframe]
  refine ⟨?_, ?_, ?_, ?_⟩
  · rw [take_append_of_le_length (by omega), take_of_length_le (by omega), hid]
    simp
  · rw [getD_eq_getElem?_getD, getElem?_append_right (by omega), h4]
    rfl
  · rw [← append_assoc, drop_append_of_le_length (by simp), drop_of_length_le (by simp), nil_append,
      take_append_of_le_length (by omega), take_of_length_le (by omega), hlen]
  · rw [← append_assoc, ← append_assoc, drop_append_of_le_length (by simp),
      drop_of_length_le (by simp), nil_append]

theorem nextFrame_frame (rest : Bytes) (h : r.data.length < 2 ^ 32) :
    nextFrame (r.frame ++ rest) = some (r.seen rest, rest) := by
  obtain ⟨hid, hstatus, hlen, hdrop⟩ := frame_header r rest h
  have hsize : (r.frame ++ rest).length = 9 + r.data.length + rest.length := by
    rw [length_append, length_frame]
  have hrest : (r.frame ++ rest).drop (9 + r.data.length) = rest := by
    rw [← length_frame r, drop_left]
  have hmid : mid (r.frame ++ rest) 9 (toInt r.data.length) =
      if r.data.length < 2 ^ 31 then r.data else r.data ++ rest := by
    unfold mid toInt
    rw [hdrop]
    by_cases hsmall : r.data.length < 2 ^ 31
    · rw [if_pos hsmall, if_pos hsmall, if_neg (by omega)]
      simp
    · rw [if_neg hsmall, if_neg hsmall, if_pos (by omega)]
  unfold nextFrame
  rw [if_neg (by omega)]
  dsimp only
  rw [hid, hstatus, hlen, if_neg (by omega), hmid, hrest]
  unfold seen
  split <;> rfl

theorem nextFrame_partial {r : Response} {part : Bytes} (hpart : part <+: r.frame) (hlt : part.length < r.frame.length)
    (h : r.data.length < 2 ^ 32) : nextFrame part = none := by
  obtain ⟨rest, hrest⟩ := hpart
  unfold nextFrame
  split
  · rfl
  have hlen : leNat ((part.drop 5).take 4) = r.data.length := by
    have := (frame_header r [] h).2.2.1
    rwa [append_nil, ← hrest, drop_append_of_le_length (by omega),
      take_append_of_le_length (by rw [length_drop]; omega)] at this
  rw [hlen, if_pos (by rw [length_frame] at hlt; omega)]

theorem nextFrame_nil : nextFrame [] = none := rfl

/-! ### A buffer of frames -/

/-- Where the stream of some responses has got to: nothing of the next frame, or not all of it. -/
def Partial (part : Bytes) (rest : List Response) : Prop :=
  rest = [] ∧ part = [] ∨ ∃ r more, rest = r :: more ∧ part <+: r.frame ∧ part.length < r.frame.length

section
variable {κ : Type}

/-- What the calls that wait are to be handed for these responses. -/
def due (pending : List (UInt32 × κ)) (done : List Response) : List (κ × UInt8 × Bytes) :=
  done.filterMap (fun r => (pending.lookup r.id).map (fun call => (call, r.status, r.data)))

/-- The frames of large responses that a call waits for end only at places with `P`. -/
def AtEnds (pending : List (UInt32 × κ)) (P : Nat → Prop) : Nat → List Response → Prop
  | _, [] => True
  | start, r :: rs =>
    (2 ^ 31 ≤ r.data.length → (pending.lookup r.id).isSome = true → P (start + r.frame.length)) ∧
      AtEnds pending P (start + r.frame.length) rs

variable {pending : List (UInt32 × κ)} {P : Nat → Prop} {done : List Response}

/-- Only the ends count, and no frame ends before `low`. -/
theorem atEnds_congr (low : Nat) {pending' : List (UInt32 × κ)} {Q : Nat → Prop} {start start' : Nat}
    (hlookup : ∀ r ∈ done, pending.lookup r.id = pending'.lookup r.id)
    (hlow : ∀ r ∈ done.head?, low ≤ r.frame.length)
    (h : ∀ n, low ≤ n → n ≤ (done.flatMap frame).length → (P (start + n) ↔ Q (start' + n))) :
    AtEnds pending P start done ↔ AtEnds pending' Q start' done := by
  induction done generalizing start start' low with
  | nil => exact Iff.rfl
  | cons r done ih =>
    rw [flatMap_cons, length_append] at h
    have hlow' : low ≤ r.frame.length := hlow r rfl
    have hhead := h r.frame.length hlow' (by omega)
    have hrest : AtEnds pending P (start + r.frame.length) done ↔ AtEnds pending' Q (start' + r.frame.length) done := by
      refine ih 0 (fun s hs => hlookup s (mem_cons_of_mem _ hs)) (fun _ _ => zero_le _) ?_
      intro n _ hle
      have := h (r.frame.length + n) (by omega) (by omega)
      rwa [← add_assoc, ← add_assoc] at this
    rw [AtEnds, AtEnds, hrest, hhead, hlookup r mem_cons_self]

theorem atEnds_append {start : Nat} {a b : List Response} :
    AtEnds pending P start (a ++ b) ↔
      AtEnds pending P start a ∧ AtEnds pending P (start + (a.flatMap frame).length) b := by
  induction a generalizing start with
  | nil => simp [AtEnds]
  | cons r a ih =>
    rw [cons_append, AtEnds, AtEnds, ih, flatMap_cons, length_append, ← add_assoc, and_assoc]

theorem atEnds_iff :
    AtEnds pending P 0 done ↔ ∀ before r after, done = before ++ r :: after → 2 ^ 31 ≤ r.data.length →
      (pending.lookup r.id).isSome = true → P ((before ++ [r]).flatMap frame).length := by
  constructor
  · rintro h before r after rfl hbig hwaits
    obtain ⟨_, hr, _⟩ := atEnds_append.mp h
    have := hr hbig hwaits
    simpa [flatMap_append] using this
  · intro h
    induction done using reverseRecOn with
    | nil => trivial
    | append_singleton done r ih =>
      rw [atEnds_append]
      refine ⟨ih ?_, ?_, trivial⟩
      · rintro before s after rfl
        exact h before s (after ++ [r]) (by simp)
      · intro hbig hwaits
        have := h done r [] rfl hbig hwaits
        simpa [flatMap_append] using this

theorem lookup_filter (p : UInt32 → Bool) {id : UInt32} (h : p id = true) (pending : List (UInt32 × κ)) :
    (pending.filter (fun entry => p entry.1)).lookup id = pending.lookup id := by
  induction pending with
  | nil => rfl
  | cons entry pending ih =>
    obtain ⟨key, call⟩ := entry
    by_cases hkey : p key = true
    · rw [filter_cons_of_pos (by exact hkey), lookup_cons, lookup_cons, ih]
    · have hne : (id == key) = false := beq_eq_false_iff_ne.mpr fun heq => hkey (heq ▸ h)
      rw [filter_cons_of_neg (by exact hkey), ih, lookup_cons, hne]

theorem filter_of_lookup_none {id : UInt32} (h : pending.lookup id = none) :
    pending.filter (fun entry => entry.1 != id) = pending := by
  refine filter_eq_self.mpr fun entry hentry => ?_
  rw [bne_comm]
  exact lookup_eq_none_iff.mp h entry hentry

/-- The calls that still wait after these responses. -/
def waiting (pending : List (UInt32 × κ)) (done : List Response) : List (UInt32 × κ) :=
  pending.filter (fun entry => !(done.map Response.id).contains entry.1)

theorem waiting_nil (pending : List (UInt32 × κ)) : waiting pending [] = pending :=
  filter_eq_self.mpr (fun _ _ => rfl)

theorem due_congr {pending' : List (UInt32 × κ)}
    (h : ∀ r ∈ done, pending.lookup r.id = pending'.lookup r.id) : due pending done = due pending' done := by
  induction done with
  | nil => rfl
  | cons r done ih =>
    have hrest := ih (fun s hs => h s (mem_cons_of_mem _ hs))
    unfold due at hrest ⊢
    rw [filterMap_cons, filterMap_cons, hrest, h r mem_cons_self]

/-- What one response does: the call that waits for it no longer waits and has what is due to it. -/
theorem hand_spec (rd : Reader κ) (r : Response) :
    (rd.hand r).readBuf = rd.readBuf ∧ (rd.hand r).pending = rd.pending.filter (fun entry => entry.1 != r.id) ∧
      (rd.hand r).handed = rd.handed ++ due rd.pending [r] := by
  unfold hand
  cases h : rd.pending.lookup r.id with
  | none => simp [due, h, filter_of_lookup_none h]
  | some call => simp [due, h]

theorem due_seen (pending : List (UInt32 × κ)) (r : Response) (behind : Bytes) :
    (due pending [r.seen behind]).length = (due pending [r]).length ∧
      (due pending [r.seen behind] = due pending [r] ↔
        (2 ^ 31 ≤ r.data.length → (pending.lookup r.id).isSome = true → behind = [])) := by
  have hid : (r.seen behind).id = r.id := by unfold seen; split <;> rfl
  have hstatus : (r.seen behind).status = r.status := by unfold seen; split <;> rfl
  unfold due
  cases h : pending.lookup r.id with
  | none => simp [hid, h]
  | some call =>
    simp only [filterMap_cons, filterMap_nil, hid, hstatus, h, map_some, length_cons, length_nil,
      true_and, isSome_some, cons.injEq, Prod.mk.injEq, and_true, forall_const]
    unfold seen
    split
    · simp
      omega
    simp
    omega

theorem partial_of_lt {r : Response} {rest : List Response} {part : Bytes}
    (h : part <+: (r :: rest).flatMap frame) (hlt : part.length < r.frame.length) : Partial part (r :: rest) := by
  refine .inr ⟨r, rest, rfl, ?_, hlt⟩
  exact prefix_of_prefix_length_le h (prefix_append _ _) (by omega)

/-- From `rd` to `rd'` the input is the frames of the first responses and what is left in the buffer: the calls that
waited for them no longer wait, and have what is due to them if it ends where it should. -/
def Reads (rd rd' : Reader κ) (input : Bytes) (rs : List Response) (Ends : Nat → Prop) : Prop :=
  ∃ done rest extra, rs = done ++ rest ∧ input = done.flatMap frame ++ rd'.readBuf ∧ Partial rd'.readBuf rest ∧
    rd'.pending = waiting rd.pending done ∧ rd'.handed = rd.handed ++ extra ∧
    extra.length = (due rd.pending done).length ∧ (extra = due rd.pending done ↔ AtEnds rd.pending Ends 0 done)

theorem Reads.none {rd : Reader κ} {rs : List Response} (h : Partial rd.readBuf rs) (Ends : Nat → Prop) :
    Reads rd rd rd.readBuf rs Ends :=
  ⟨[], rs, [], rfl, rfl, h, (waiting_nil _).symm, by simp, rfl, by simp [due, AtEnds]⟩

/-- **What one pass over the buffer does**, for a buffer that is the beginning of a stream of responses. -/
theorem processLoop_spec (fuel : Nat) (rd : Reader κ) (rs : List Response) (hfuel : rd.readBuf.length ≤ fuel)
    (hlen : ∀ r ∈ rs, r.data.length < 2 ^ 32) (hids : (rs.map Response.id).Nodup)
    (hbuf : rd.readBuf <+: rs.flatMap frame) :
    Reads rd (processLoop fuel rd) rd.readBuf rs (fun n => n = rd.readBuf.length) := by
  induction rs generalizing fuel rd with
  | nil =>
    have hempty : rd.readBuf = [] := prefix_nil.mp hbuf
    have hstop : processLoop fuel rd = rd := by
      cases fuel with
      | zero => rfl
      | succ fuel => rw [processLoop, hempty, nextFrame_nil]
    rw [hstop]
    exact Reads.none (.inl ⟨rfl, hempty⟩) _
  | cons r rs ih =>
    by_cases hwhole : rd.readBuf.length < r.frame.length
    · have hpart := partial_of_lt hbuf hwhole
      have hprefix : rd.readBuf <+: r.frame := by
        rcases hpart with ⟨h, _⟩ | ⟨r', more, heq, hp, _⟩
        · cases h
        · cases heq
          exact hp
      have hstop : processLoop fuel rd = rd := by
        cases fuel with
        | zero => rfl
        | succ fuel => rw [processLoop, nextFrame_partial hprefix hwhole (hlen r (.head _))]
      rw [hstop]
      exact Reads.none hpart _
    -- the first frame is whole: it is handed over and the pass goes on behind it
    rw [flatMap_cons] at hbuf
    obtain ⟨tail, htail⟩ : r.frame <+: rd.readBuf :=
      prefix_of_prefix_length_le (prefix_append _ _) hbuf (by omega)
    rw [← htail, prefix_append_right_inj] at hbuf
    have hnine : 9 ≤ r.frame.length := by rw [length_frame]; omega
    have hsize : rd.readBuf.length = r.frame.length + tail.length := by rw [← htail, length_append]
    cases fuel with
    | zero => omega
    | succ fuel =>
      obtain ⟨hb₁, hp₁, hh₁⟩ := hand_spec { rd with readBuf := tail } (r.seen tail)
      have hid : (r.seen tail).id = r.id := by unfold seen; split <;> rfl
      rw [hid] at hp₁
      rw [map_cons, nodup_cons] at hids
      obtain ⟨done, rest, extra, hrs, hdone, hpart, hpend, hhanded, hextra, hiff⟩ :=
        ih fuel ({ rd with readBuf := tail }.hand (r.seen tail)) (by rw [hb₁]; show tail.length ≤ fuel; omega)
          (fun s hs => hlen s (.tail _ hs)) hids.2 (by rw [hb₁]; exact hbuf)
      have hstep : processLoop (fuel + 1) rd = processLoop fuel ({ rd with readBuf := tail }.hand (r.seen tail)) := by
        rw [processLoop, ← htail, nextFrame_frame r tail (hlen r (.head _))]
      rw [hstep]
      have hothers : ∀ s ∈ done, s.id ≠ r.id := by
        intro s hs heq
        refine hids.1 ?_
        rw [hrs, map_append, ← heq]
        exact mem_append_left _ (mem_map_of_mem hs)
      have hlookup : ∀ s ∈ done,
          ({ rd with readBuf := tail }.hand (r.seen tail)).pending.lookup s.id = rd.pending.lookup s.id := by
        intro s hs
        rw [hp₁]
        exact lookup_filter (· != r.id) (bne_iff_ne.mpr (hothers s hs)) _
      have hdue : due ({ rd with readBuf := tail }.hand (r.seen tail)).pending done = due rd.pending done :=
        due_congr hlookup
      have hcons : due rd.pending (r :: done) = due rd.pending [r] ++ due rd.pending done := by
        rw [due, ← singleton_append, filterMap_append]
        rfl
      obtain ⟨hseenLen, hseenIff⟩ := due_seen rd.pending r tail
      refine ⟨r :: done, rest, due rd.pending [r.seen tail] ++ extra, by rw [hrs]; rfl, ?_, hpart, ?_, ?_, ?_, ?_⟩
      · rw [flatMap_cons, append_assoc, ← hdone, hb₁]
        exact htail.symm
      · rw [hpend, hp₁, waiting, waiting, List.filter_filter]
        refine filter_congr ?_
        intro entry _
        rw [map_cons, contains_cons, Bool.not_or, Bool.and_comm]
        rfl
      · rw [hhanded, hh₁, append_assoc]
      · rw [hcons, length_append, length_append, hseenLen, hextra, hdue]
      · rw [hcons]
        rw [append_eq_append_iff_of_size_eq_left hseenLen, hseenIff, ← hdue, hiff, AtEnds, zero_add]
        refine and_congr ?_ ?_
        · have : tail = [] ↔ r.frame.length = rd.readBuf.length := by
            rw [← length_eq_zero_iff]
            omega
          rw [this]
        · refine atEnds_congr 0 hlookup (fun _ _ => zero_le _) ?_
          intro n _ _
          rw [hb₁]
          show 0 + n = tail.length ↔ _
          omega

end

/-! ### Any splitting -/

section
variable {κ : Type}

theorem Partial.length_lt {part : Bytes} {r : Response} {rest : List Response} (h : Partial part (r :: rest)) :
    part.length < r.frame.length := by
  rcases h with ⟨h, _⟩ | ⟨r', more, heq, _, hlt⟩
  · cases h
  · cases heq
    exact hlt

variable (pending : List (UInt32 × κ))

theorem due_append (a b : List Response) :
    due pending (a ++ b) = due pending a ++ due pending b := filterMap_append

theorem waiting_append (a b : List Response) :
    waiting (waiting pending a) b = waiting pending (a ++ b) := by
  rw [waiting, waiting, waiting, List.filter_filter]
  refine List.filter_congr ?_
  simp [Bool.and_comm]

/-- **What any splitting of a stream of responses does.** -/
theorem onReadyRead_spec (chunks : List Bytes) (rd : Reader κ) (rs : List Response)
    (hlen : ∀ r ∈ rs, r.data.length < 2 ^ 32) (hids : (rs.map Response.id).Nodup) (hpart : Partial rd.readBuf rs)
    (hstream : rd.readBuf ++ chunks.flatten <+: rs.flatMap frame) :
    Reads rd (chunks.foldl onReadyRead rd) (rd.readBuf ++ chunks.flatten) rs
      (fun n => ∃ cs, cs <+: chunks ∧ rd.readBuf.length + cs.flatten.length = n) := by
  induction chunks generalizing rd rs with
  | nil =>
    rw [flatten_nil, append_nil]
    exact Reads.none hpart _
  | cons chunk chunks ih =>
    rw [flatten_cons, ← append_assoc] at hstream
    have hfirst : rd.readBuf ++ chunk <+: rs.flatMap frame := (prefix_append _ _).trans hstream
    obtain ⟨done₁, rest₁, extra₁, hrs₁, hbuf₁, hpart₁, hpend₁, hhand₁, hext₁, hiff₁⟩ :=
      processLoop_spec _ { rd with readBuf := rd.readBuf ++ chunk } rs (.refl) hlen hids hfirst
    have hread : processLoop (rd.readBuf ++ chunk).length { rd with readBuf := rd.readBuf ++ chunk } =
        rd.onReadyRead chunk := rfl
    simp only [hread] at hbuf₁ hpart₁ hpend₁ hhand₁ hext₁ hiff₁
    have hlen₁ : ∀ r ∈ rest₁, r.data.length < 2 ^ 32 :=
      fun r hr => hlen r (by rw [hrs₁]; exact mem_append_right _ hr)
    rw [hrs₁, map_append, nodup_append] at hids
    have hstream₁ : (rd.onReadyRead chunk).readBuf ++ chunks.flatten <+: rest₁.flatMap frame := by
      rwa [hbuf₁, hrs₁, flatMap_append, append_assoc, prefix_append_right_inj] at hstream
    obtain ⟨done₂, rest, extra₂, hrs₂, hbuf₂, hpart₂, hpend₂, hhand₂, hext₂, hiff₂⟩ :=
      ih (rd.onReadyRead chunk) rest₁ hlen₁ hids.2.1 hpart₁ hstream₁
    have hlookup : ∀ s ∈ done₂, (rd.onReadyRead chunk).pending.lookup s.id = rd.pending.lookup s.id := by
      intro s hs
      rw [hpend₁]
      refine lookup_filter (fun key => !(done₁.map Response.id).contains key) ?_ _
      rw [Bool.not_eq_true', contains_eq_mem, decide_eq_false_iff_not]
      intro hmem
      refine hids.2.2 s.id hmem s.id ?_ rfl
      rw [hrs₂, map_append]
      exact mem_append_left _ (mem_map_of_mem hs)
    rw [due_congr hlookup] at hext₂ hiff₂
    have hsize : rd.readBuf.length + chunk.length =
        (done₁.flatMap frame).length + (rd.onReadyRead chunk).readBuf.length := by
      rw [← length_append, hbuf₁, length_append]
    refine ⟨done₁ ++ done₂, rest, extra₁ ++ extra₂, by rw [hrs₁, hrs₂, append_assoc], ?_, hpart₂, ?_, ?_, ?_, ?_⟩
    · rw [flatten_cons, ← append_assoc, hbuf₁, append_assoc, hbuf₂, flatMap_append, append_assoc]
      rfl
    · exact hpend₂.trans (by rw [hpend₁, waiting_append])
    · exact hhand₂.trans (by rw [hhand₁, append_assoc])
    · rw [due_append, length_append, length_append, hext₁, hext₂]
    rw [due_append, atEnds_append]
    rw [append_eq_append_iff_of_size_eq_left hext₁, hiff₁, hiff₂]
    refine and_congr ?_ ?_
    · -- a frame that this read completes ends where the read ends, or not at the end of a read
      refine atEnds_congr (rd.readBuf.length + 1) (fun _ _ => rfl) ?_ ?_
      · intro r hr
        cases done₁ with
        | nil => cases hr
        | cons s done₁ =>
          cases hr
          rw [hrs₁] at hpart
          exact hpart.length_lt
      · intro n hlow hle
        constructor
        · intro hn
          refine ⟨[chunk], by simp, ?_⟩
          have hn' : 0 + n = (rd.readBuf ++ chunk).length := hn
          simpa using hn'.symm
        · rintro ⟨cs, hcs, hend⟩
          rw [length_append]
          cases cs with
          | nil => rw [flatten_nil, length_nil] at hend; omega
          | cons c cs =>
            rw [cons_prefix_cons] at hcs
            rw [hcs.1, flatten_cons, length_append] at hend
            omega
    · -- the others end where a later read ends
      refine atEnds_congr (rd.readBuf.length + 1 - (done₁.flatMap frame).length) hlookup ?_ ?_
      · intro r hr
        rw [hrs₁] at hpart
        cases done₁ with
        | nil =>
          cases done₂ with
          | nil => cases hr
          | cons s done₂ =>
            cases hr
            rw [hrs₂] at hpart
            have := hpart.length_lt
            omega
        | cons s done₁ =>
          have := hpart.length_lt
          rw [flatMap_cons, length_append]
          omega
      · intro n hlow hle
        constructor
        · rintro ⟨cs, hcs, hend⟩
          refine ⟨chunk :: cs, (cons_prefix_cons).mpr ⟨rfl, hcs⟩, ?_⟩
          rw [flatten_cons, length_append]
          omega
        · rintro ⟨cs, hcs, hend⟩
          cases cs with
          | nil => rw [flatten_nil, length_nil] at hend; omega
          | cons c cs =>
            rw [cons_prefix_cons] at hcs
            refine ⟨cs, hcs.2, ?_⟩
            rw [hcs.1, flatten_cons, length_append] at hend
            omega

end

/-! ### Both directions -/

section
variable {κ : Type}

/-- The responses received whole were handed to the calls that waited for them, and the buffer has what is left of the
next one. -/
def Delivered (pending : List (UInt32 × κ)) (rs : List Response) (chunks : List Bytes) : Prop :=
  ∃ done rest, rs = done ++ rest ∧
    chunks.flatten =
      done.flatMap frame ++ (chunks.foldl onReadyRead { pending := pending }).readBuf ∧
    Partial (chunks.foldl onReadyRead { pending := pending }).readBuf rest ∧
    (chunks.foldl onReadyRead { pending := pending }).pending = waiting pending done ∧
    (chunks.foldl onReadyRead { pending := pending }).handed = due pending done

theorem partial_start (rs : List Response) : Partial [] rs := by
  cases rs with
  | nil => exact .inl ⟨rfl, rfl⟩
  | cons r rs =>
    refine .inr ⟨r, rs, rfl, nil_prefix, ?_⟩
    rw [length_frame, length_nil]
    omega

theorem length_le_responses (rs : List Response) : rs.length ≤ (rs.flatMap frame).length := by
  induction rs with
  | nil => simp
  | cons r rs ih =>
    rw [flatMap_cons, length_append, length_cons, length_frame]
    omega

/-- The beginning of a stream has one way to be frames and a rest. -/
theorem done_unique {rs done rest done' rest' : List Response} (h : rs = done ++ rest) (h' : rs = done' ++ rest')
    (hsize : (done.flatMap frame).length = (done'.flatMap frame).length) : done = done' := by
  have hshort {a b : List Response} (hab : a <+: b)
      (hlen : (a.flatMap frame).length = (b.flatMap frame).length) : a = b := by
    obtain ⟨c, rfl⟩ := hab
    rw [flatMap_append, length_append] at hlen
    have hc := length_le_responses c
    have : c = [] := length_eq_zero_iff.mp (by omega)
    rw [this, append_nil]
  rcases prefix_or_prefix_of_prefix ⟨rest, h.symm⟩ ⟨rest', h'.symm⟩ with hp | hp
  · exact hshort hp hsize
  · exact (hshort hp hsize.symm).symm

/-- A response of `2^31` bytes or more is handed over whole and alone just where its last byte is the last of a read. -/
theorem delivered_iff (pending : List (UInt32 × κ)) (rs : List Response) (chunks : List Bytes)
    (hlen : ∀ r ∈ rs, r.data.length < 2 ^ 32) (hids : (rs.map Response.id).Nodup)
    (hstream : chunks.flatten <+: rs.flatMap frame) :
    Delivered pending rs chunks ↔
      ∀ before r after, rs = before ++ r :: after → 2 ^ 31 ≤ r.data.length → (pending.lookup r.id).isSome = true →
        ((before ++ [r]).flatMap frame).length ≤ chunks.flatten.length →
        ∃ reads, reads <+: chunks ∧ reads.flatten.length = ((before ++ [r]).flatMap frame).length := by
  obtain ⟨done, rest, extra, hrs, hbuf, hpart, hpend, hhand, _, hiff⟩ :=
    onReadyRead_spec chunks { pending := pending } rs hlen hids (partial_start rs) hstream
  rw [nil_append] at hbuf hhand
  refine Iff.trans (b := AtEnds pending (fun n => ∃ cs, cs <+: chunks ∧
    ([] : Bytes).length + cs.flatten.length = n) 0 done) ?_ ?_
  · rw [← hiff]
    constructor
    · rintro ⟨done', rest', hrs', hbuf', hpart', _, hhand'⟩
      have hsize : (done.flatMap frame).length = (done'.flatMap frame).length := by
        have := congrArg length (hbuf.symm.trans hbuf')
        rw [length_append, length_append] at this
        omega
      have hsame : done = done' := done_unique hrs hrs' hsize
      rw [← hhand, hhand', hsame]
    · intro h
      exact ⟨done, rest, hrs, hbuf, hpart, hpend, hhand.trans h⟩
  · rw [atEnds_iff]
    constructor
    · intro h before r after hsplit hbig hwaits hend
      -- a frame that was received whole is one of those that are done
      have hdone : before ++ [r] <+: done := by
        have hsplit' : rs = (before ++ [r]) ++ after := by rw [hsplit, append_assoc]; rfl
        rcases prefix_or_prefix_of_prefix ⟨after, hsplit'.symm⟩ ⟨rest, hrs.symm⟩ with hp | hp
        · exact hp
        obtain ⟨more, hmore⟩ := hp
        cases more with
        | nil =>
          have heq : before ++ [r] = done := by rw [← hmore, append_nil]
          exact heq ▸ prefix_rfl
        | cons s more =>
          have hhead : rest = s :: (more ++ after) := by
            rw [hrs, ← hmore, append_assoc, append_cancel_left_eq] at hsplit'
            exact hsplit'
          rw [hhead] at hpart
          have hlt := hpart.length_lt
          rw [← hmore, flatMap_append, length_append, flatMap_cons, length_append, hbuf,
            length_append] at hend
          omega
      obtain ⟨more, hmore⟩ := hdone
      obtain ⟨cs, hcs, hlast⟩ := h before r more (by rw [← hmore, append_assoc]; rfl) hbig hwaits
      refine ⟨cs, hcs, ?_⟩
      rw [length_nil, zero_add] at hlast
      exact hlast
    · intro h before r after hsplit hbig hwaits
      have hend : ((before ++ [r]).flatMap frame).length ≤ chunks.flatten.length := by
        have hjoin : done = (before ++ [r]) ++ after := by rw [hsplit, append_assoc]; rfl
        have hsize : (done.flatMap frame).length =
            ((before ++ [r]).flatMap frame).length + (after.flatMap frame).length := by
          rw [hjoin, @flatMap_append _ _ (before ++ [r]) after, length_append]
        rw [hbuf, length_append]
        omega
      obtain ⟨reads, hreads, hlast⟩ := h before r (after ++ rest) (by rw [hrs, hsplit]; simp) hbig hwaits hend
      exact ⟨reads, hreads, by rw [length_nil, zero_add]; exact hlast⟩

/-- **Requests and responses come through whole and in order**, however they are split, just where each response of
`2^31` bytes or more that a call waits for ends with a read. -/
theorem wire_iff (pending : List (UInt32 × κ)) (requests : List Request) (conn : List Bytes) (rs : List Response)
    (chunks : List Bytes) (hconn : conn.flatten = requests.flatMap Request.frame)
    (hmethod : ∀ r ∈ requests, r.method.length < 2 ^ 16) (hpayload : ∀ r ∈ requests, r.payload.length < 2 ^ 32)
    (hlen : ∀ r ∈ rs, r.data.length < 2 ^ 32) (hids : (rs.map Response.id).Nodup)
    (hstream : chunks.flatten <+: rs.flatMap frame) :
    serve conn = requests ∧ Delivered pending rs chunks ↔
      ∀ before r after, rs = before ++ r :: after → 2 ^ 31 ≤ r.data.length → (pending.lookup r.id).isSome = true →
        ((before ++ [r]).flatMap frame).length ≤ chunks.flatten.length →
        ∃ reads, reads <+: chunks ∧ reads.flatten.length = ((before ++ [r]).flatMap frame).length := by
  rw [and_iff_right (serve_frames hconn hmethod hpayload)]
  exact delivered_iff pending rs chunks hlen hids hstream

end

/-- Two small responses in three reads, the second call's first. -/
theorem wire_small :
    serve [[1, 0], [0, 0, 1, 0, 83, 2, 0], [0, 0, 7], [8]] = [⟨1, [83], [7, 8]⟩] ∧
      Delivered [((1 : UInt32), "start"), (2, "stop")] [⟨2, 0, [9]⟩, ⟨1, 1, []⟩]
        [[2, 0, 0], [0, 0, 1, 0, 0, 0, 9, 1], [0, 0, 0, 1, 0, 0, 0, 0]] := by
  refine (wire_iff _ _ _ _ _ (by decide) (by decide) (by decide) (by decide) (by decide) (by decide)).mpr ?_
  intro before r after hsplit hbig
  have hmem : r ∈ [(⟨2, 0, [9]⟩ : Response), ⟨1, 1, []⟩] := by
    rw [hsplit]
    simp
  simp only [mem_cons, not_mem_nil, or_false] at hmem
  rcases hmem with rfl | rfl <;> simp at hbig

/-- A response of `2^31` bytes that comes with the next one behind it in the same read. -/
def largeThenSmall : List Response := [⟨1, 0, replicate (2 ^ 31) 0⟩, ⟨2, 0, []⟩]

theorem large_not_delivered :
    (∀ r ∈ largeThenSmall, r.data.length < 2 ^ 32) ∧ (largeThenSmall.map Response.id).Nodup ∧
      ¬ Delivered [((1 : UInt32), ())] largeThenSmall [largeThenSmall.flatMap frame] := by
  have hlen : ∀ r ∈ largeThenSmall, r.data.length < 2 ^ 32 := by
    intro r hr
    simp only [largeThenSmall, mem_cons, not_mem_nil, or_false] at hr
    rcases hr with rfl | rfl
    · rw [length_replicate]
      omega
    · rw [length_nil]
      omega
  have hids : (largeThenSmall.map Response.id).Nodup := by
    decide
  refine ⟨hlen, hids, ?_⟩
  rw [delivered_iff _ _ _ hlen hids (by simp)]
  intro h
  have hframes : (largeThenSmall.flatMap frame).length = 9 + 2 ^ 31 + 9 := by
    rw [largeThenSmall, flatMap_cons, flatMap_cons, flatMap_nil, append_nil, length_append,
      length_frame, length_frame, length_replicate, length_nil]
  have hfirst : ((([] : List Response) ++ [(⟨1, 0, replicate (2 ^ 31) 0⟩ : Response)]).flatMap frame).length =
      9 + 2 ^ 31 := by
    rw [nil_append, flatMap_cons, flatMap_nil, append_nil, length_frame, length_replicate]
  obtain ⟨reads, hreads, hlast⟩ := h [] ⟨1, 0, replicate (2 ^ 31) 0⟩ [⟨2, 0, []⟩] rfl
    (by rw [length_replicate]) (by decide) (by rw [flatten_singleton, hframes, hfirst]; omega)
  cases reads with
  | nil => rw [flatten_nil, length_nil] at hlast; omega
  | cons c reads =>
    rw [cons_prefix_cons, prefix_nil] at hreads
    rw [hreads.1, hreads.2, flatten_singleton, hframes] at hlast
    omega

end Waterdisco.Api
