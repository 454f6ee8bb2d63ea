import BandChain.Lib.Incremental
import BandChain.Net.Session
import BandChain.Util.Varint

/-! A session takes the same requests off its stream however the socket cuts it. -/

namespace BandChain

open Incremental (Drains Stable)

namespace TmApp

/-- A request at the front of the buffer, and the buffer after it. -/
def nextRequest (buf : ByteString) : Option (ByteString × ByteString) :=
  match takeRequest buf with
  | (.ok (some payload), rest) => if rest.length < buf.length then some (payload, rest) else none
  | _ => none

theorem nextRequest_eq_some {buf payload rest : ByteString} :
    nextRequest buf = some (payload, rest) ↔ takeRequest buf = (.ok (some payload), rest) ∧ rest.length < buf.length := by
  unfold nextRequest
  split
  · rename_i taken
    rw [taken]
    split
    · rename_i shorter
      constructor
      · rintro ⟨⟩
        exact ⟨rfl, shorter⟩
      · rintro ⟨⟨⟩, _⟩
        rfl
    · rename_i longer
      refine iff_of_false nofun ?_
      rintro ⟨⟨⟩, shorter⟩
      exact longer shorter
  · rename_i other
    refine iff_of_false nofun ?_
    rintro ⟨taken, _⟩
    exact other _ _ taken

theorem takeRequest_waits {buf : ByteString} (waits : readAhead buf = (.ok none, buf)) : takeRequest buf = (.ok none, buf) := by
  unfold takeRequest
  rw [Exec.bind_of_ok waits]
  rfl

theorem takeRequest_of {buf mid rest : ByteString} {size : Int} (read : readAhead buf = (.ok (some size), mid))
    (ran : consume size mid = (.ok (), rest)) : takeRequest buf = (.ok (some (mid.take size.toNat)), rest) := by
  have body : (do let buf ← Exec.get; consume size; return some (buf.take size.toNat) : Decoder (Option ByteString)) mid =
      (.ok (some (mid.take size.toNat)), rest) := (Exec.bind_of_ok (Exec.get_apply mid)).trans (Exec.bind_of_ok ran)
  exact (Exec.bind_of_ok read).trans body

theorem takeRequest_some {buf payload rest : ByteString} (taken : takeRequest buf = (.ok (some payload), rest)) :
    ∃ size mid, readAhead buf = (.ok (some size), mid) ∧ consume size mid = (.ok (), rest) ∧ payload = mid.take size.toNat := by
  obtain ⟨read, mid, ran, taken⟩ := Exec.bind_ok taken
  cases read with
  | none => cases taken
  | some size =>
    obtain ⟨_, _, got, taken⟩ := Exec.bind_ok taken
    obtain ⟨same, rfl⟩ := Prod.mk.inj got
    obtain rfl := Except.ok.inj same
    obtain ⟨_, _, consumed, made⟩ := Exec.bind_ok taken
    obtain ⟨same, rfl⟩ := Prod.mk.inj made
    exact ⟨size, mid, ran, consumed, (Option.some.inj (Except.ok.inj same)).symm⟩

/-! What was taken is taken whatever follows. -/

theorem consume_append {length : Int} {buf rest : ByteString} (more : ByteString) (ran : consume length buf = (.ok (), rest)) :
    consume length (buf ++ more) = (.ok (), rest ++ more) := by
  obtain ⟨inside, rfl⟩ := consume_ok ran
  rw [consume_of (by rw [List.length_append]; omega), List.drop_append_of_le_length (by omega)]

theorem found_append {buf rest : ByteString} {idx val : Nat} {size : Int} (more : ByteString)
    (found : readAhead.found idx val buf = (.ok (some size), rest)) :
    readAhead.found idx val (buf ++ more) = (.ok (some size), rest ++ more) := by
  obtain ⟨arrived, consumed, rfl⟩ := found_ok found
  refine found_taken (Int.lt_of_lt_of_le arrived ?_) (consume_append more consumed)
  rw [List.length_append]
  omega

theorem go_append {buf left rest : ByteString} {idx val : Nat} {size : Int} (more : ByteString)
    (found : readAhead.go left idx val buf = (.ok (some size), rest)) :
    readAhead.go (left ++ more) idx val (buf ++ more) = (.ok (some size), rest ++ more) := by
  induction left generalizing idx val with
  | nil => cases found
  | cons raw left ih =>
    rw [List.cons_append]
    unfold readAhead.go at found ⊢
    by_cases last : raw.toNat &&& 0x80 = 0
    · simp only [if_pos last] at found ⊢
      exact found_append more found
    · simp only [if_neg last] at found ⊢
      exact ih found

theorem takeRequest_append {buf payload rest : ByteString} (more : ByteString) (taken : takeRequest buf = (.ok (some payload), rest)) :
    takeRequest (buf ++ more) = (.ok (some payload), rest ++ more) := by
  obtain ⟨size, mid, read, consumed, rfl⟩ := takeRequest_some taken
  have inside := (consume_ok consumed).1
  have again : readAhead (buf ++ more) = (.ok (some size), mid ++ more) := go_append more read
  rw [takeRequest_of again (consume_append more consumed), List.take_append_of_le_length (by omega)]

theorem stable_nextRequest : Stable nextRequest := by
  constructor
  · intro _ _ _ taken
    exact (nextRequest_eq_some.mp taken).2
  · intro buf payload rest more taken
    obtain ⟨taken, shorter⟩ := nextRequest_eq_some.mp taken
    refine nextRequest_eq_some.mpr ⟨takeRequest_append more taken, ?_⟩
    rw [List.length_append, List.length_append]
    omega

/-! ### Frames -/

theorem varintEncode_go_pos {fuel v : Nat} (enough : v < fuel) : 0 < (varintEncode.go fuel v).length := by
  cases fuel with
  | zero => omega
  | succ fuel =>
    rw [varintEncode.go]
    split <;> simp

theorem go_encode (rest : ByteString) {fuel v idx val : Nat} (enough : v < fuel) (low : val < 2 ^ (7 * idx))
    (fits : val + v * 2 ^ (7 * idx) < 2 ^ 32) :
    readAhead.go (varintEncode.go fuel v ++ rest) idx val =
      readAhead.found (idx + (varintEncode.go fuel v).length - 1) (val + v * 2 ^ (7 * idx)) := by
  induction fuel generalizing v idx val with
  | zero => omega
  | succ fuel ih =>
    have mask : v &&& 0x7F = v % 128 := Nat.and_two_pow_sub_one_eq_mod v 7
    have shift : v >>> 7 = v / 128 := Nat.shiftRight_eq_div_pow v 7
    obtain ⟨last, stop, more, go⟩ := digit_bits (m := v % 128) (Nat.mod_lt _ (by decide))
    obtain ⟨below, split⟩ := digit_step v low
    have digit : val + v % 128 * 2 ^ (7 * idx) < 2 ^ 32 := by omega
    have shl : (v % 128) <<< (7 * idx % 32) % 2 ^ 32 = v % 128 * 2 ^ (7 * idx) :=
      Except.ok.inj (IntType.shl_of_fits (T := .uint32) (Nat.lt_of_le_of_lt (Nat.le_add_left _ val) digit))
    have or := IntType.or_of_fits (T := .uint32) low digit
    simp only [varintEncode.go, mask, shift]
    by_cases small : v / 128 = 0
    · have whole : v % 128 = v := Nat.mod_eq_of_lt (by omega)
      simp only [small, ne_eq, not_true, if_false, List.cons_append, List.nil_append, readAhead.go, last, stop, shl, or, if_true,
        List.length_singleton, Nat.add_sub_cancel]
      rw [whole]
    · have longer := varintEncode_go_pos (show v / 128 < fuel by omega)
      simp only [small, ne_eq, not_false_eq_true, if_true, List.cons_append, readAhead.go, more, shl, or, if_neg go, List.length_cons]
      rw [ih (by omega) below (by rw [split]; exact fits), split]
      congr 1
      omega

/-- A piece of a length waits for the rest of it. -/
theorem go_piece {fuel v idx val : Nat} {piece : ByteString} (piece_of : piece <+: varintEncode.go fuel v)
    (proper : piece ≠ varintEncode.go fuel v) (buf : ByteString) : readAhead.go piece idx val buf = (.ok none, buf) := by
  induction fuel generalizing v idx val piece with
  | zero => exact (proper (List.prefix_nil.mp piece_of)).elim
  | succ fuel ih =>
    have mask : v &&& 0x7F = v % 128 := Nat.and_two_pow_sub_one_eq_mod v 7
    obtain ⟨_, _, _, go⟩ := digit_bits (m := v % 128) (Nat.mod_lt _ (by decide))
    cases piece with
    | nil => rfl
    | cons raw piece =>
      simp only [varintEncode.go, mask] at piece_of proper
      split at piece_of
      · rename_i more
        rw [if_pos more] at proper
        obtain ⟨rfl, later⟩ := List.cons_prefix_cons.mp piece_of
        simp only [readAhead.go, if_neg go]
        exact ih later fun same => proper (by rw [same])
      · rename_i last
        rw [if_neg last] at proper
        obtain ⟨rfl, rest⟩ := List.cons_prefix_cons.mp piece_of
        exact (proper (by rw [List.prefix_nil.mp rest])).elim

/-- The length of a request that is short enough for an `int`. -/
theorem frame_eq {payload : ByteString} (short : payload.length < 2 ^ 30) : frame payload = varintEncode (2 * payload.length) ++ payload := by
  have twice : (UInt64.ofNat payload.length <<< 1).toNat = 2 * payload.length := by
    rw [UInt64.toNat_shiftLeft, UInt64.toNat_ofNat', show (1 : UInt64).toNat % 64 = 1 from rfl, Nat.shiftLeft_eq]
    omega
  rw [frame, twice]

theorem readAhead_varint {payload : ByteString} (short : payload.length < 2 ^ 30) (rest : ByteString) :
    readAhead (varintEncode (2 * payload.length) ++ rest) =
      if payload.length ≤ rest.length then (.ok (some (payload.length : Int)), rest)
      else (.ok none, varintEncode (2 * payload.length) ++ rest) := by
  have positive : 0 < (varintEncode (2 * payload.length)).length := varintEncode_go_pos (Nat.lt_add_one _)
  have five : (varintEncode (2 * payload.length)).length ≤ 5 := varintEncode_go_length (k := 4) (by omega)
  have loop : readAhead.go (varintEncode.go (2 * payload.length + 1) (2 * payload.length) ++ rest) 0 0 = _ :=
    go_encode rest (Nat.lt_add_one (2 * payload.length)) (by decide) (by omega)
  simp only [Nat.mul_zero, Nat.pow_zero, Nat.mul_one, Nat.zero_add] at loop
  have value : int32 ((2 * payload.length : Nat) : Int) / 2 = payload.length := by
    rw [int32_of_lt (by omega) (by omega)]
    omega
  unfold readAhead
  rw [Exec.bind_of_ok (Exec.get_apply _)]
  unfold varintEncode at *
  rw [loop]
  generalize varintEncode.go (2 * payload.length + 1) (2 * payload.length) = front at *
  have number : int32 ((front.length - 1 : Nat) + payload.length) = front.length - 1 + payload.length := by
    rw [int32_of_lt (by omega) (by omega)]
    omega
  by_cases enough : payload.length ≤ rest.length
  · have taken : int32 (1 + (front.length - 1 : Nat)) = front.length := by
      rw [int32_of_lt (by omega) (by omega)]
      omega
    have consumed : consume (int32 (1 + (front.length - 1 : Nat))) (front ++ rest) = (.ok (), rest) := by
      rw [taken, consume_of (by rw [List.length_append]; omega), Int.toNat_natCast, List.drop_left]
    rw [found_taken (by rw [value, number, List.length_append]; omega) consumed, value, if_pos enough]
  · rw [found_waits (by rw [value, number, List.length_append]; omega), if_neg enough]

/-- A frame is taken off, whatever follows it. -/
theorem nextRequest_frame {payload : ByteString} (short : payload.length < 2 ^ 30) (rest : ByteString) :
    nextRequest (frame payload ++ rest) = some (payload, rest) := by
  have positive : 0 < (varintEncode (2 * payload.length)).length := varintEncode_go_pos (Nat.lt_add_one _)
  have read := readAhead_varint short (payload ++ rest)
  rw [if_pos (by simp)] at read
  have consumed : consume payload.length (payload ++ rest) = (.ok (), rest) := by
    rw [consume_of (by rw [List.length_append]; omega), Int.toNat_natCast, List.drop_left]
  rw [nextRequest_eq_some, frame_eq short, List.append_assoc, takeRequest_of read consumed, Int.toNat_natCast, List.take_left,
    List.length_append, List.length_append]
  exact ⟨rfl, by omega⟩

/-- A piece of a frame waits for the rest of it. -/
theorem takeRequest_piece {payload piece : ByteString} (short : payload.length < 2 ^ 30) (piece_of : piece <+: frame payload)
    (proper : piece ≠ frame payload) : takeRequest piece = (.ok none, piece) := by
  rw [frame_eq short] at piece_of proper
  have waits {rest : ByteString} (part : rest <+: payload) (missing : rest ≠ payload) :
      takeRequest (varintEncode (2 * payload.length) ++ rest) = (.ok none, varintEncode (2 * payload.length) ++ rest) := by
    have fewer : rest.length < payload.length :=
      Nat.lt_of_le_of_ne part.length_le fun same => missing (part.eq_of_length same)
    refine takeRequest_waits ?_
    rw [readAhead_varint short, if_neg (Nat.not_le.mpr fewer)]
  rcases List.prefix_or_prefix_of_prefix piece_of (List.prefix_append _ payload) with inside | ⟨rest, rfl⟩
  · by_cases whole : piece = varintEncode (2 * payload.length)
    · subst whole
      have some : [] ≠ payload := fun none => proper (by rw [← none, List.append_nil])
      simpa using waits List.nil_prefix some
    · exact takeRequest_waits (go_piece inside whole piece)
  · exact waits ((List.prefix_append_right_inj _).mp piece_of) fun same => proper (by rw [same])

end TmApp

open TmApp (frame nextRequest takeRequest)

/-- Requests that are handled one after the other, with the answers. -/
def answerAll {σ : Type} (handle : ByteString → Exec Stop σ ByteString) : List ByteString → Exec Stop σ (List ByteString)
  | [] => return []
  | payload :: payloads => do
    let res ← handle payload
    return res :: (← answerAll handle payloads)

def stream (payloads : List ByteString) : ByteString := (payloads.map frame).flatten

/-- What is left is the front of the next frame, but not all of it. -/
def Incomplete (tail : ByteString) : List ByteString → Prop
  | [] => tail = []
  | payload :: _ => tail <+: frame payload ∧ tail ≠ frame payload

namespace Session

variable {σ : Type} {handle : ByteString → Exec Stop σ ByteString}

theorem answerAll_append {before after replies : List ByteString} {app app' : σ}
    (answered : answerAll handle (before ++ after) app = (.ok replies, app')) :
    ∃ first mid second, answerAll handle before app = (.ok first, mid) ∧ answerAll handle after mid = (.ok second, app') ∧
      replies = first ++ second := by
  induction before generalizing app replies with
  | nil => exact ⟨[], app, replies, rfl, answered, rfl⟩
  | cons payload before ih =>
    obtain ⟨res, _, handled, answered⟩ := Exec.bind_ok answered
    obtain ⟨rest, _, others, made⟩ := Exec.bind_ok answered
    obtain ⟨same, rfl⟩ := Prod.mk.inj made
    obtain ⟨first, mid, second, ran, later, rfl⟩ := ih others
    refine ⟨res :: first, mid, second, ?_, later, (Except.ok.inj same).symm⟩
    exact (Exec.bind_of_ok handled).trans (Exec.bind_of_ok ran)

theorem stream_append (first second : List ByteString) : stream (first ++ second) = stream first ++ stream second := by
  rw [stream, List.map_append, List.flatten_append]
  rfl

theorem process_of {app app' : σ} {buf rest payload res out : ByteString} (taken : nextRequest buf = some (payload, rest))
    (handled : handle payload app = (.ok res, app')) :
    process handle { app, readBuffer := buf, writeBuffer := out } =
      (.ok true, { app := app', readBuffer := rest, writeBuffer := out ++ frame res }) := by
  unfold process
  simp only [(TmApp.nextRequest_eq_some.mp taken).1, handled]

/-- The loop handles what can be taken off the buffer, and leaves the rest. -/
theorem drain_runs {fuel : Nat} {app app' : σ} {buf tail out : ByteString} {items replies : List ByteString}
    (drains : Drains nextRequest buf items tail) (waits : (takeRequest tail).1 = .ok none) (enough : buf.length < fuel)
    (answered : answerAll handle items app = (.ok replies, app')) :
    drain handle fuel { app, readBuffer := buf, writeBuffer := out } =
      (.ok (), { app := app', readBuffer := tail, writeBuffer := out ++ stream replies }) := by
  induction drains generalizing app out fuel replies with
  | @done buf stuck =>
    obtain ⟨fuel, rfl⟩ : ∃ k, fuel = k + 1 := ⟨fuel - 1, by omega⟩
    obtain ⟨same, rfl⟩ := Prod.mk.inj answered
    obtain rfl := Except.ok.inj same
    have idle : process handle { app, readBuffer := buf, writeBuffer := out } = (.ok false, { app, readBuffer := buf, writeBuffer := out }) := by
      unfold process
      rcases taken : takeRequest buf with ⟨result, rest⟩
      rw [taken] at waits
      obtain rfl : result = .ok none := waits
      rfl
    rw [show out ++ stream [] = out from List.append_nil out]
    exact Exec.bind_of_ok idle
  | @more buf r mid items tail taken rest ih =>
    obtain ⟨fuel, rfl⟩ : ∃ k, fuel = k + 1 := ⟨fuel - 1, by omega⟩
    obtain ⟨res, app₁, handled, answered⟩ := Exec.bind_ok answered
    obtain ⟨answers, _, others, made⟩ := Exec.bind_ok answered
    obtain ⟨same, rfl⟩ := Prod.mk.inj made
    obtain rfl := Except.ok.inj same
    have shorter := TmApp.stable_nextRequest.shorter taken
    have later : drain handle fuel { app := app₁, readBuffer := mid, writeBuffer := out ++ frame res } = _ :=
      ih waits (Nat.lt_of_lt_of_le shorter (Nat.le_of_lt_succ enough)) others
    rw [List.append_assoc] at later
    exact (Exec.bind_of_ok (process_of taken handled)).trans later

theorem asyncWrite_apply (s : Session σ) : asyncWrite s = (.ok s.writeBuffer, { s with writeBuffer := [] }) := by
  unfold asyncWrite
  rw [Exec.bind_of_ok (Exec.get_apply s)]
  obtain ⟨app, buf, out⟩ := s
  by_cases empty : out = []
  · subst empty
    rfl
  · rw [if_neg empty, processWrite, Exec.bind_of_ok (Exec.modify_apply _ _), List.drop_length]
    rfl

/-- Chunk by chunk, a session handles what can be taken off the whole, where it never has more than a piece of the next request. -/
theorem serve_runs {chunks : List ByteString} {app app' : σ} {buf tail : ByteString} {items replies : List ByteString}
    (stuck : nextRequest buf = none) (drains : Drains nextRequest (buf ++ chunks.flatten) items tail)
    (waits : ∀ more items tail, more <+: chunks.flatten → Drains nextRequest (buf ++ more) items tail → (takeRequest tail).1 = .ok none)
    (answered : answerAll handle items app = (.ok replies, app')) :
    serve handle chunks { app, readBuffer := buf } = (.ok (stream replies), { app := app', readBuffer := tail }) := by
  induction chunks generalizing app buf items replies with
  | nil =>
    rw [List.flatten_nil, List.append_nil] at drains
    obtain ⟨rfl, rfl⟩ := drains.unique (.done stuck)
    obtain ⟨same, rfl⟩ := Prod.mk.inj answered
    obtain rfl := Except.ok.inj same
    rfl
  | cons chunk chunks ih =>
    rw [List.flatten_cons] at drains waits
    rw [← List.append_assoc] at drains
    obtain ⟨before, after, rest, first, second, rfl⟩ := drains.split TmApp.stable_nextRequest
    obtain ⟨replies₁, mid, replies₂, handled, later, rfl⟩ := answerAll_append answered
    have drained : drain handle ((buf ++ chunk).length + 1) { app, readBuffer := buf ++ chunk } = _ :=
      drain_runs first (waits chunk before rest (List.prefix_append _ _) first) (Nat.lt_succ_self _) handled
    have read : processRead handle chunk { app, readBuffer := buf } = (.ok (stream replies₁), { app := mid, readBuffer := rest }) := by
      refine (Exec.bind_of_ok (Exec.modify_apply _ _)).trans ((Exec.bind_of_ok (Exec.get_apply _)).trans ?_)
      exact (Exec.bind_of_ok drained).trans (asyncWrite_apply _)
    have waits' (more : ByteString) (items : List ByteString) (tail : ByteString) (front : more <+: chunks.flatten)
        (left : Drains nextRequest (rest ++ more) items tail) : (takeRequest tail).1 = .ok none := by
      refine waits (chunk ++ more) (before ++ items) tail ((List.prefix_append_right_inj chunk).mpr front) ?_
      rw [← List.append_assoc]
      exact first.append TmApp.stable_nextRequest left
    have served := ih first.stuck second waits' later
    rw [stream_append]
    exact (Exec.bind_of_ok read).trans (Exec.bind_of_ok served)

end Session

theorem stream_cons (payload : ByteString) (payloads : List ByteString) : stream (payload :: payloads) = frame payload ++ stream payloads := rfl

/-- The front of a stream is some frames and an incomplete one. -/
theorem front_of_stream {payloads : List ByteString} {front rest : ByteString} (cut : front ++ rest = stream payloads) :
    ∃ done todo tail, payloads = done ++ todo ∧ front = stream done ++ tail ∧ Incomplete tail todo := by
  induction payloads generalizing front with
  | nil => exact ⟨[], [], [], rfl, (List.append_eq_nil_iff.mp cut).1, rfl⟩
  | cons payload payloads ih =>
    rw [stream_cons] at cut
    by_cases whole : frame payload <+: front
    · obtain ⟨later, rfl⟩ := whole
      rw [List.append_assoc] at cut
      obtain ⟨done, todo, tail, rfl, rfl, incomplete⟩ := ih (List.append_cancel_left cut)
      exact ⟨payload :: done, todo, tail, rfl, (List.append_assoc ..).symm, incomplete⟩
    · have inside := (List.prefix_or_prefix_of_prefix ⟨rest, cut⟩ (List.prefix_append (frame payload) _)).resolve_right whole
      exact ⟨[], payload :: payloads, front, rfl, rfl, inside, fun same => whole ⟨[], by rw [List.append_nil, same]⟩⟩

theorem takeRequest_incomplete {todo : List ByteString} {tail : ByteString} (short : ∀ p ∈ todo, p.length < 2 ^ 30)
    (incomplete : Incomplete tail todo) : takeRequest tail = (.ok none, tail) := by
  cases todo with
  | nil =>
    obtain rfl : tail = [] := incomplete
    rfl
  | cons p todo => exact TmApp.takeRequest_piece (short p List.mem_cons_self) incomplete.1 incomplete.2

theorem drains_stream {done todo : List ByteString} {tail : ByteString} (short : ∀ p ∈ done ++ todo, p.length < 2 ^ 30)
    (incomplete : Incomplete tail todo) : Drains nextRequest (stream done ++ tail) done tail := by
  induction done with
  | nil =>
    refine .done ?_
    rw [show stream [] ++ tail = tail from rfl, nextRequest, takeRequest_incomplete short incomplete]
  | cons p done ih =>
    have taken := TmApp.nextRequest_frame (short p List.mem_cons_self) (stream done ++ tail)
    rw [stream_cons, List.append_assoc]
    exact .more taken (ih fun q mem => short q (List.mem_cons_of_mem _ mem))

/-- What is left of the front of a stream waits for more of it. -/
theorem stream_waits {payloads items : List ByteString} {front rest tail : ByteString} (short : ∀ p ∈ payloads, p.length < 2 ^ 30)
    (cut : front ++ rest = stream payloads) (drains : Drains nextRequest front items tail) : (takeRequest tail).1 = .ok none := by
  obtain ⟨done, todo, piece, rfl, rfl, incomplete⟩ := front_of_stream cut
  obtain ⟨-, rfl⟩ := drains.unique (drains_stream short incomplete)
  rw [takeRequest_incomplete (fun p mem => short p (List.mem_append_right _ mem)) incomplete]

/-- However the frames are cut, a session handles the payloads whose frames have arrived, in order, and keeps
the piece of the next one. -/
theorem framing {σ : Type} {handle : ByteString → Exec Stop σ ByteString} {app last : σ} {payloads replies : List ByteString}
    (short : ∀ p ∈ payloads, p.length < 2 ^ 30) (returns : answerAll handle payloads app = (.ok replies, last))
    {chunks : List ByteString} {rest : ByteString} (cut : chunks.flatten ++ rest = stream payloads) :
    ∃ done todo tail, payloads = done ++ todo ∧ chunks.flatten = stream done ++ tail ∧ Incomplete tail todo ∧
      ∃ answers app', answerAll handle done app = (.ok answers, app') ∧
        Session.serve handle chunks { app } = (.ok (stream answers), { app := app', readBuffer := tail }) := by
  obtain ⟨done, todo, tail, rfl, arrived, incomplete⟩ := front_of_stream cut
  obtain ⟨answers, app', _, answered, _, _⟩ := Session.answerAll_append returns
  refine ⟨done, todo, tail, rfl, arrived, incomplete, answers, app', answered, ?_⟩
  have drains := drains_stream short incomplete
  rw [← arrived] at drains
  refine Session.serve_runs rfl drains ?_ answered
  rintro _ _ _ ⟨more, whole⟩ left
  refine stream_waits short (?_ : _ ++ (more ++ rest) = _) left
  rw [← cut, ← whole, List.append_assoc]
  simp

/-- The requests `echo` of "hi" and `flush`, which are answered with the same bytes. -/
def hi : ByteString := [0x12, 0x04, 0x0a, 0x02, 0x68, 0x69]

def flush : ByteString := [0x1a, 0x00]

/-- An application that keeps what it is handed, and answers with it. -/
def echo : ByteString → Exec Stop (List ByteString) ByteString := fun payload app => (.ok payload, app ++ [payload])

theorem framing_echo :
    ∃ done todo tail, [hi, flush] = done ++ todo ∧
      [[0x0c, 0x12], [0x04, 0x0a, 0x02, 0x68, 0x69, 0x04]].flatten = stream done ++ tail ∧ Incomplete tail todo ∧
      ∃ answers app', answerAll echo done [] = (.ok answers, app') ∧
        Session.serve echo [[0x0c, 0x12], [0x04, 0x0a, 0x02, 0x68, 0x69, 0x04]] { app := [] } =
          (.ok (stream answers), { app := app', readBuffer := tail }) :=
  framing (by decide +kernel) (show answerAll echo [hi, flush] [] = (.ok [hi, flush], [hi, flush]) from rfl)
    (show [[0x0c, 0x12], [0x04, 0x0a, 0x02, 0x68, 0x69, 0x04]].flatten ++ [0x1a, 0x00] = stream [hi, flush] by
      decide +kernel)

end BandChain
