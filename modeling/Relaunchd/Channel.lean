/-
  Relaunchd.Channel — messages over a stream socket (`src/channel.h`, `src/channel.cc`).

  A message is the text of a JSON value and a NUL byte after it. `readMessage` reads once,
  into an array on the stack that holds whatever an earlier call left there, and parses
  the array. What `read(2)` and `write(2)` answer are arguments.
-/

import Relaunchd.Lib.Codec
import Relaunchd.Lib.Prog

namespace Relaunchd

open Prog

def ipcMaxMsglen : Nat := 32768

abbrev MessageBuffer := { buf : Bytes // buf.length = ipcMaxMsglen }

structure Channel where
  sockfd : Int := -1
  /-- The other side of the channel. -/
  peerfd : Int := -1

def toSizeT (n : Int) : Nat := (n % 2 ^ 64).toNat

namespace Channel

variable {V : Type} (codec : Codec V) (c : Channel)

def Connected : Prop := ¬ (c.peerfd < 0 ∧ c.sockfd < 0)

instance : Decidable c.Connected := inferInstanceAs (Decidable (¬ _))

/-- `json::parse` of an array stops at the first NUL byte, or at the end of the array. -/
def parseArray (buf : Bytes) : Option V := codec.parse (Codec.untilNul buf)

/-- `read` are the bytes that `read(2)` returns; none means that it fails. -/
def readMessage (stale : MessageBuffer) (read : Option Bytes) : Except String V :=
  if ¬ c.Connected then .error "must call accept() or connect() first"
  else match read with
    | none => .error "read(2) failed"
    | some received => match parseArray codec (received ++ stale.1.drop received.length) with
      | some j => .ok j
      | none => .error "JSON parse failed"

/-- What `write(2)` of `size` bytes returns: `accepts` is how many it is ready to take, and
    none means that it fails. -/
def writeResult (accepts : Option Nat) (size : Nat) : Int :=
  match accepts with
  | none => -1
  | some n => (min n size : Nat)

/-- The state is what the other side has not read yet. -/
def writeMessage (j : V) (accepts : Option Nat) : Prog Bytes Unit :=
  if ¬ c.Connected then throw "must call accept() or connect() first"
  else do
    let buf := codec.dump j ++ [0]
    let bytes := writeResult accepts buf.length
    modify (· ++ buf.take bytes.toNat)
    if toSizeT bytes < buf.length then throw "write(2) failed" else return ()

/-- The end of `rpc_dispatch`; false stands for the line `dispatch failed` in the log. -/
def respond (response : V) (accepts : Option Nat) : Prog Bytes Bool :=
  tryCatch (do c.writeMessage codec response accepts; return true) fun _ => return false

/-- What each subcommand of the client does with its message. -/
def converse (msg : V) (accepts : Option Nat) (stale : MessageBuffer) (read : Option Bytes) : Prog Bytes V := do
  c.writeMessage codec msg accepts
  match c.readMessage codec stale read with
  | .ok reply => return reply
  | .error what => throw what

/-- One `read(2)` returns all bytes already written, up to the size of the array. -/
def oneRead (stream : Bytes) : Bytes := stream.take ipcMaxMsglen

variable {codec c} {j : V} {received : Bytes} {accepts : Option Nat} {stream stream' : Bytes}

theorem readMessage_eq (hc : c.Connected) (stale : MessageBuffer) :
    c.readMessage codec stale (some received) =
      match codec.parse (Codec.untilNul (received ++ stale.1.drop received.length)) with
      | some j => .ok j
      | none => .error "JSON parse failed" := by
  rw [readMessage, if_neg (not_not.mpr hc)]
  rfl

theorem readMessage_ok (hc : c.Connected) (stale : MessageBuffer) :
    c.readMessage codec stale (some received) = .ok j ↔
      codec.parse (Codec.untilNul (received ++ stale.1.drop received.length)) = some j := by
  rw [readMessage_eq hc]
  cases codec.parse (Codec.untilNul (received ++ stale.1.drop received.length)) with
  | none => exact iff_of_false nofun nofun
  | some j' => exact ⟨fun h => by cases h; rfl, fun h => by cases h; rfl⟩

/-! ## From one side to the other -/

theorem writeMessage_eq (hc : c.Connected) : c.writeMessage codec j accepts stream =
    let buf := codec.dump j ++ [0]
    if toSizeT (writeResult accepts buf.length) < buf.length then
      .throw "write(2) failed" (stream ++ buf.take (writeResult accepts buf.length).toNat)
    else .ok () (stream ++ buf.take (writeResult accepts buf.length).toNat) := by
  rw [writeMessage, if_neg (not_not.mpr hc)]
  simp only [bind, andThen, Prog.modify]
  split <;> rfl

theorem toSizeT_le (n : Nat) : toSizeT n ≤ n := by
  unfold toSizeT
  omega

theorem toSizeT_failed : toSizeT (-1) = 2 ^ 64 - 1 := rfl

def AcceptsAll (codec : Codec V) (j : V) (accepts : Option Nat) : Prop :=
  ∃ n, accepts = some n ∧ (codec.dump j ++ [0]).length ≤ n

/-- `writeMessage` returns when it has written all of a message, and also when `write(2)`
    fails: the size -1 is cast to is no less than any other. -/
theorem writeMessage_ok (h : c.writeMessage codec j accepts stream = .ok () stream') :
    accepts = none ∧ stream' = stream ∨ AcceptsAll codec j accepts ∧ stream' = stream ++ (codec.dump j ++ [0]) := by
  by_cases hc : c.Connected
  · rw [writeMessage_eq hc] at h
    dsimp only at h
    split at h
    · cases h
    rename_i hsize
    cases h
    cases accepts with
    | none => exact .inl ⟨rfl, List.append_nil _⟩
    | some n =>
      have hle := toSizeT_le (min n (codec.dump j ++ [0]).length)
      rw [writeResult] at hsize ⊢
      have hall : (codec.dump j ++ [0]).length ≤ n := by omega
      refine .inr ⟨⟨n, rfl, hall⟩, ?_⟩
      rw [Nat.min_eq_right hall, Int.toNat_natCast, List.take_length]
  · rw [writeMessage, if_pos hc] at h
    cases h

/-- A write that fails looks like one of the largest size there is. -/
theorem writeMessage_failed (hc : c.Connected) (hlen : (codec.dump j ++ [0]).length < 2 ^ 64) :
    c.writeMessage codec j none stream = .ok () stream := by
  have hsize : ¬ toSizeT (writeResult none (codec.dump j ++ [0]).length) < (codec.dump j ++ [0]).length := by
    rw [writeResult, toSizeT_failed]
    omega
  rw [writeMessage_eq hc]
  dsimp only
  rw [if_neg hsize]
  exact congrArg _ (List.append_nil stream)

/-- Any other write that does not take the whole message is an exception. -/
theorem writeMessage_throws (hfail : ¬ c.Connected ∨ accepts ≠ none ∨ 2 ^ 64 ≤ (codec.dump j ++ [0]).length)
    (hall : ¬ AcceptsAll codec j accepts) : ∃ what stream', c.writeMessage codec j accepts stream = .throw what stream' := by
  by_cases hc : c.Connected
  · rw [writeMessage_eq hc]
    dsimp only
    have hsize : toSizeT (writeResult accepts (codec.dump j ++ [0]).length) < (codec.dump j ++ [0]).length := by
      cases accepts with
      | none =>
        have hlen := (hfail.resolve_left (not_not.mpr hc)).resolve_left (not_not.mpr rfl)
        rw [writeResult, toSizeT_failed]
        omega
      | some n =>
        have hle := toSizeT_le (min n (codec.dump j ++ [0]).length)
        have hn : n < (codec.dump j ++ [0]).length := Nat.not_le.mp fun h => hall ⟨n, rfl, h⟩
        rw [writeResult]
        omega
    rw [if_pos hsize]
    exact ⟨_, _, rfl⟩
  · rw [writeMessage, if_pos hc]
    exact ⟨_, _, rfl⟩

/-- A text that fits comes with its terminator, or fills the array. -/
theorem oneRead_message (hlen : (codec.dump j).length ≤ ipcMaxMsglen) (stale : MessageBuffer) :
    Codec.untilNul (oneRead (codec.dump j ++ [0]) ++ stale.1.drop (oneRead (codec.dump j ++ [0])).length) = codec.dump j := by
  by_cases hfull : (codec.dump j).length = ipcMaxMsglen
  · have hread : oneRead (codec.dump j ++ [0]) = codec.dump j := by
      rw [oneRead, List.take_append_of_le_length (by omega), List.take_of_length_le (by omega)]
    rw [hread, List.drop_of_length_le (by rw [stale.2, hfull]), List.append_nil]
    exact Codec.untilNul_of_noNul (codec.noNul j)
  · have hread : oneRead (codec.dump j ++ [0]) = codec.dump j ++ [0] :=
      List.take_of_length_le (by rw [List.length_append, List.length_singleton]; omega)
    rw [hread, List.append_assoc]
    exact Codec.untilNul_append_nul _ (codec.noNul j)

/-- A longer text is cut, and fills the array. -/
theorem oneRead_cut (hlen : ipcMaxMsglen < (codec.dump j).length) (stale : MessageBuffer) :
    Codec.untilNul (oneRead (codec.dump j ++ [0]) ++ stale.1.drop (oneRead (codec.dump j ++ [0])).length) =
      (codec.dump j).take ipcMaxMsglen := by
  have hread : oneRead (codec.dump j ++ [0]) = (codec.dump j).take ipcMaxMsglen :=
    List.take_append_of_le_length (le_of_lt hlen)
  rw [hread, List.drop_of_length_le (by rw [stale.2, List.length_take]; omega), List.append_nil]
  exact Codec.untilNul_of_noNul fun hm => codec.noNul j (List.mem_of_mem_take hm)

def zeros : MessageBuffer := ⟨List.replicate ipcMaxMsglen 0, List.length_replicate⟩

theorem untilNul_zeros : Codec.untilNul zeros.1 = [] := by
  show Codec.untilNul (List.replicate (32767 + 1) 0) = []
  rw [List.replicate_succ]
  have hnil : 0 ∉ ([] : Bytes) := nofun
  exact Codec.untilNul_append_nul _ hnil

/-- When `writeMessage` returns, the next message the other side reads is what was written,
    whatever its array held before, if and only if `write(2)` did not fail and the text
    fits into the array. -/
theorem message_received (hcut : codec.CutsFail) (hempty : codec.parse [] = none) {peer : Channel} (hpeer : peer.Connected)
    (hw : c.writeMessage codec j accepts [] = .ok () stream) :
    (∀ stale, peer.readMessage codec stale (some (oneRead stream)) = .ok j) ↔
      accepts ≠ none ∧ (codec.dump j).length ≤ ipcMaxMsglen := by
  simp only [readMessage_ok hpeer]
  rcases writeMessage_ok hw with ⟨ha, rfl⟩ | ⟨⟨n, rfl, hn⟩, rfl⟩
  · refine iff_of_false (fun h => ?_) fun h => h.1 ha
    have hz := h zeros
    rw [show oneRead [] ++ zeros.1.drop (oneRead []).length = zeros.1 from rfl, untilNul_zeros, hempty] at hz
    cases hz
  · rw [List.nil_append]
    by_cases hlen : (codec.dump j).length ≤ ipcMaxMsglen
    · exact iff_of_true (fun stale => by rw [oneRead_message hlen, codec.parse_dump]) ⟨nofun, hlen⟩
    · rw [Nat.not_le] at hlen
      refine iff_of_false (fun h => ?_) fun h => absurd h.2 (Nat.not_le.mpr hlen)
      have hz := h zeros
      rw [oneRead_cut hlen] at hz
      exact hcut j _ hlen hz

theorem message_received_short :
    Channel.readMessage Codec.letters { sockfd := 4 } zeros (some (oneRead [34, 97, 34, 0])) = .ok 1 := by
  have hw : Channel.writeMessage Codec.letters { sockfd := 3, peerfd := 5 } 1 (some 4) [] = .ok () [34, 97, 34, 0] := rfl
  have hpeer : Channel.Connected { sockfd := 4 } := by decide
  exact (message_received Codec.letters_cutsFail rfl hpeer hw).mpr ⟨nofun, by decide⟩ zeros

/-- A string of 32768 letters does not arrive. -/
theorem message_lost : ¬ ∀ (V : Type) (codec : Codec V) (c peer : Channel) (j : V) (accepts : Option Nat) (stream : Bytes),
    codec.CutsFail → peer.Connected → c.writeMessage codec j accepts [] = .ok () stream →
      ∀ stale, peer.readMessage codec stale (some (oneRead stream)) = .ok j := by
  intro h
  have hw : Channel.writeMessage Codec.letters { sockfd := 3, peerfd := 5 } 32768 (some 32771) [] =
      .ok () (Codec.letters.dump 32768 ++ [0]) := by
    have hlen : (Codec.letters.dump 32768 ++ [0]).length = 32771 := by
      rw [List.length_append, Codec.letters_length]
      rfl
    rw [writeMessage_eq (by decide)]
    dsimp only
    rw [hlen, if_neg (by decide), show (writeResult (some 32771) 32771).toNat = 32771 from rfl,
      List.take_of_length_le (le_of_eq hlen), List.nil_append]
  have hlen : ipcMaxMsglen < (Codec.letters.dump 32768).length := by
    rw [Codec.letters_length]
    decide
  have hread := h Nat Codec.letters _ { sockfd := 4 } _ _ _ Codec.letters_cutsFail (by decide) hw zeros
  rw [readMessage_ok (by decide), oneRead_cut hlen] at hread
  exact Codec.letters_cutsFail _ _ hlen hread

/-! ## What counts as sent -/

def Sent (codec : Codec V) (j : V) (accepts : Option Nat) (stream stream' : Bytes) : Prop :=
  AcceptsAll codec j accepts ∧ stream' = stream ++ (codec.dump j ++ [0])

structure SendsWhole (codec : Codec V) (c : Channel) (j : V) (accepts : Option Nat) (stream : Bytes) : Prop where
  returns : ∀ stream', c.writeMessage codec j accepts stream = .ok () stream' → Sent codec j accepts stream stream'
  throws : ¬ AcceptsAll codec j accepts → ∃ what stream', c.writeMessage codec j accepts stream = .throw what stream'
  responds : ∀ stream', c.respond codec j accepts stream = .ok true stream' → Sent codec j accepts stream stream'
  converses : ∀ stale read reply stream', c.converse codec j accepts stale read stream = .ok reply stream' →
    Sent codec j accepts stream stream'

theorem respond_sent (h : c.respond codec j accepts stream = .ok true stream') :
    c.writeMessage codec j accepts stream = .ok () stream' := by
  unfold respond Prog.tryCatch at h
  cases hw : c.writeMessage codec j accepts stream with
  | ok u s =>
    rw [bind_ok hw] at h
    cases h
    rfl
  | throw what s =>
    rw [bind_throw hw] at h
    cases h
  | crash why =>
    rw [bind_crash hw] at h
    cases h

theorem converse_sent {stale : MessageBuffer} {read : Option Bytes} {reply : V}
    (h : c.converse codec j accepts stale read stream = .ok reply stream') :
    c.writeMessage codec j accepts stream = .ok () stream' := by
  obtain ⟨u, s, hw, hr⟩ := of_bind_ok h
  cases hread : c.readMessage codec stale read with
  | error what =>
    rw [hread] at hr
    cases hr
  | ok reply' =>
    rw [hread] at hr
    cases hr
    exact hw

/-- `writeMessage` keeps its word if and only if `write(2)` does not fail: only a size no
    text can have is more than what -1 is cast to. -/
theorem sendsWhole_iff : SendsWhole codec c j accepts stream ↔
    ¬ c.Connected ∨ accepts ≠ none ∨ 2 ^ 64 ≤ (codec.dump j ++ [0]).length := by
  constructor
  · intro h
    refine Classical.or_iff_not_imp_left.mpr fun hc => Classical.or_iff_not_imp_left.mpr fun ha => ?_
    rw [not_not] at hc ha
    subst ha
    refine Nat.not_lt.mp fun hlen => ?_
    obtain ⟨⟨n, hn, -⟩, -⟩ := h.returns _ (writeMessage_failed hc hlen)
    cases hn
  · intro hfail
    have hreturns : ∀ stream', c.writeMessage codec j accepts stream = .ok () stream' → Sent codec j accepts stream stream' := by
      intro stream' hok
      rcases writeMessage_ok hok with ⟨rfl, rfl⟩ | hsent
      · have hall : ¬ AcceptsAll codec j none := fun ⟨n, hn, _⟩ => nomatch hn
        obtain ⟨what, s, hthrow⟩ := writeMessage_throws hfail hall
        cases hok.symm.trans hthrow
      · exact hsent
    exact {
      returns := hreturns
      throws := writeMessage_throws hfail
      responds := fun stream' h => hreturns stream' (respond_sent h)
      converses := fun stale read reply stream' h => hreturns stream' (converse_sent h) }

/-- The peer is gone. -/
theorem unsent_message : ¬ ∀ (V : Type) (codec : Codec V) (c : Channel) (j : V) (accepts : Option Nat) (stream : Bytes),
    SendsWhole codec c j accepts stream := by
  intro h
  obtain ⟨⟨n, hn, -⟩, -⟩ := (h Nat Codec.letters { sockfd := 3, peerfd := 5 } 1 none []).returns [] rfl
  cases hn

/-! ## What was in the array before -/

/-- The bytes after those received are any bytes up to a NUL. -/
theorem exists_stale {rest : Bytes} (hrest : 0 ∉ rest) (hnul : 0 ∉ received)
    (hlen : received.length + rest.length ≤ ipcMaxMsglen) :
    ∃ stale : MessageBuffer, Codec.untilNul (received ++ stale.1.drop received.length) = received ++ rest := by
  have hdrop : ∀ pad : Bytes, (received ++ rest ++ pad).drop received.length = rest ++ pad := fun pad => by
    rw [List.append_assoc, List.drop_left]
  by_cases hfull : received.length + rest.length = ipcMaxMsglen
  · refine ⟨⟨received ++ rest ++ [], by simpa using hfull⟩, ?_⟩
    rw [hdrop, List.append_nil]
    exact Codec.untilNul_of_noNul fun hm => (List.mem_append.mp hm).elim hnul hrest
  · obtain ⟨n, hn⟩ : ∃ n, ipcMaxMsglen = received.length + rest.length + (n + 1) :=
      ⟨ipcMaxMsglen - (received.length + rest.length) - 1, by omega⟩
    refine ⟨⟨received ++ rest ++ List.replicate (n + 1) 0, by simp [hn, Nat.add_assoc]⟩, ?_⟩
    rw [hdrop, List.replicate_succ, ← List.append_assoc]
    exact Codec.untilNul_append_nul _ fun hm => (List.mem_append.mp hm).elim hnul hrest

/-- The bytes that are not received do not matter if and only if there is a NUL among those
    that are, or there are none, or nothing could make a text of what was received. -/
theorem read_independent {b : UInt8} (hillegal : codec.Illegal b) (hb : b ≠ 0) (hc : c.Connected)
    (hlen : received.length ≤ ipcMaxMsglen) :
    (∀ stale stale', c.readMessage codec stale (some received) = c.readMessage codec stale' (some received)) ↔
      0 ∈ received ∨ received.length = ipcMaxMsglen ∨
      ∀ rest, 0 ∉ rest → received.length + rest.length ≤ ipcMaxMsglen → codec.parse (received ++ rest) = none := by
  constructor
  · intro h
    refine Classical.or_iff_not_imp_left.mpr fun hnul => Classical.or_iff_not_imp_left.mpr fun hfull rest hrest hrlen => ?_
    -- against an array in which an illegal byte comes next
    obtain ⟨stale, hs⟩ := exists_stale hrest hnul hrlen
    have hillegalRest : 0 ∉ [b] := by simpa using Ne.symm hb
    obtain ⟨stale', hs'⟩ := exists_stale hillegalRest hnul (by simp; omega)
    have heq := h stale stale'
    rw [readMessage_eq hc, readMessage_eq hc, hs, hs', hillegal] at heq
    cases hp : codec.parse (received ++ rest) with
    | none => rfl
    | some j =>
      rw [hp] at heq
      cases heq
  · rintro (hnul | hfull | hnone) stale stale'
    · rw [readMessage_eq hc, readMessage_eq hc, Codec.untilNul_append_of_mem _ hnul, Codec.untilNul_append_of_mem _ hnul]
    · rw [readMessage_eq hc, readMessage_eq hc, List.drop_of_length_le (by rw [stale.2, hfull]),
        List.drop_of_length_le (by rw [stale'.2, hfull])]
    · have hfail : ∀ stale : MessageBuffer, 0 ∉ received →
          codec.parse (Codec.untilNul (received ++ stale.1.drop received.length)) = none := by
        intro stale hnul
        rw [Codec.untilNul_append_of_not_mem _ hnul]
        apply hnone _ Codec.not_mem_untilNul
        have hsub := Codec.length_untilNul_le (stale.1.drop received.length)
        rw [List.length_drop, stale.2] at hsub
        omega
      by_cases hnul : 0 ∈ received
      · rw [readMessage_eq hc, readMessage_eq hc, Codec.untilNul_append_of_mem _ hnul, Codec.untilNul_append_of_mem _ hnul]
      · rw [readMessage_eq hc, readMessage_eq hc, hfail stale hnul, hfail stale' hnul]

theorem read_independent_terminated :
    Channel.readMessage Codec.letters { sockfd := 3, peerfd := 5 } zeros (some [34, 97, 34, 0]) =
      Channel.readMessage Codec.letters { sockfd := 3, peerfd := 5 } ⟨List.replicate ipcMaxMsglen 97, List.length_replicate⟩
        (some [34, 97, 34, 0]) :=
  (read_independent Codec.letters_illegal (by decide) (by decide) (by decide)).mpr (.inl (by decide)) zeros _

/-- A client sends nothing, and the message before its own is read again. -/
theorem read_stale : ¬ ∀ (V : Type) (codec : Codec V) (c : Channel) (received : Bytes), c.Connected →
    received.length ≤ ipcMaxMsglen →
      ∀ stale stale', c.readMessage codec stale (some received) = c.readMessage codec stale' (some received) := by
  intro h
  have hrest : 0 ∉ Codec.letters.dump 1 := by decide
  have hnone : 0 ∉ ([] : Bytes) := nofun
  obtain ⟨stale, hs⟩ := exists_stale hrest hnone (by decide)
  have heq := h Nat Codec.letters { sockfd := 3, peerfd := 5 } [] (by decide) (by decide) stale zeros
  rw [readMessage_eq (by decide), readMessage_eq (by decide), hs, List.nil_append,
    show ([] : Bytes) ++ zeros.1.drop ([] : Bytes).length = zeros.1 from rfl, untilNul_zeros,
    Codec.letters.parse_dump, show Codec.letters.parse [] = none from rfl] at heq
  cases heq

end Channel

end Relaunchd
