/-
  Relaunchd.Properties.Serving — what the clients of the RPC socket can rely on, whoever else
  connects, falls silent or is killed: the order they are served in, whose answer they get, and
  what can hold the manager up.
-/

import Relaunchd.Lib.Simulation
import Relaunchd.Sessions

namespace Relaunchd

open Prog Transition

namespace Sessions

variable {σ V : Type} {codec : Codec V} {backlog room : Nat} {serve : V → Prog σ (Option V)}

namespace Net

variable {net net' : Net σ V} {move : Move σ V} {i j : Nat} {c : Client V}

theorem modifyClient_get (f : Client V → Client V) :
    (net.modifyClient i f).clients[j]? = if i = j then (net.clients[j]?).map f else net.clients[j]? := by
  unfold modifyClient
  rw [List.getElem?_modify]
  split
  · rfl
  · rw [Option.map_eq_map, Option.map_id']

@[simp] theorem modifyClient_length (f : Client V → Client V) :
    (net.modifyClient i f).clients.length = net.clients.length := List.length_modify ..

/-- What is known of each client is known of the one that was changed, and of the others as before. -/
theorem of_modifyClient {P : Nat → Client V → Prop} {f : Client V → Client V} (h : ∀ j c, net.clients[j]? = some c → P j c)
    (hf : ∀ c, net.clients[i]? = some c → P i c → P i (f c)) :
    ∀ j c, (net.modifyClient i f).clients[j]? = some c → P j c := by
  intro j c hc
  rw [modifyClient_get] at hc
  split at hc
  · rename_i e
    subst e
    obtain ⟨c', hc', rfl⟩ := Option.map_eq_some_iff.mp hc
    exact hf c' hc' (h i c' hc')
  · exact h j c hc

/-! ## The moves that are possible -/

inductive Moved (codec : Codec V) (backlog room : Nat) (serve : V → Prog σ (Option V)) (net : Net σ V) :
    Move σ V → Net σ V → Prop
  | connect (fd : Nat) (request : V) : net.clients.length - net.accepted ≤ backlog → net.stage.isDead = false →
      Moved codec backlog room serve net (.connect fd request)
        { net with clients := net.clients ++ [{ request, chan := { sockfd := fd } }] }
  | sent {i : Nat} {c : Client V} {accepts : Option Nat} {toServer : Bytes} : net.clients[i]? = some c →
      c.progress = .connected → c.hungUp = false → c.chan.writeMessage codec c.request accepts c.toServer = .ok () toServer →
      Moved codec backlog room serve net (.send i accepts) (net.modifyClient i fun c => { c with toServer, progress := .sent })
  | notSent {i : Nat} {c : Client V} {accepts : Option Nat} {toServer : Bytes} : net.clients[i]? = some c →
      c.progress = .connected → c.hungUp = false →
      Moved codec backlog room serve net (.send i accepts) (net.modifyClient i fun c => { c with toServer, progress := .gone })
  | received {i : Nat} {c : Client V} {stale : MessageBuffer} {bytes : Nat} : net.clients[i]? = some c →
      c.progress = .sent → readable c.toClient (c.hungUp || net.stage.isDead) bytes →
      Moved codec backlog room serve net (.receive i stale bytes) (net.receives codec i c stale bytes)
  | leave (i : Nat) : Moved codec backlog room serve net (.leave i) (net.modifyClient i fun c => { c with progress := .gone })
  | accepted (fd : Nat) : net.stage = .waiting → net.accepted < net.clients.length →
      Moved codec backlog room serve net (.accept (some fd))
        { net with chan := { net.chan with peerfd := fd }, accepted := net.accepted + 1, stage := .reading }
  | notAccepted : net.stage = .waiting → Moved codec backlog room serve net (.accept none) net
  | notParsed {c : Client V} {stale : MessageBuffer} {bytes : Nat} : net.stage = .reading →
      net.clients[net.peer]? = some c → readable c.toServer (!c.progress.isOpen) bytes →
      Moved codec backlog room serve net (.read stale (some bytes))
        { net.modifyClient net.peer fun c => { c with toServer := c.toServer.drop bytes } with stage := .hangingUp }
  | served {c : Client V} {stale : MessageBuffer} {bytes : Nat} {message : V} {response : Option V} {after : σ} :
      net.stage = .reading → net.clients[net.peer]? = some c → readable c.toServer (!c.progress.isOpen) bytes →
      net.chan.readMessage codec stale (some (c.toServer.take bytes)) = .ok message →
      serve message net.mgr = .ok response after →
      Moved codec backlog room serve net (.read stale (some bytes))
        { net.modifyClient net.peer fun c => { c with toServer := c.toServer.drop bytes } with
          mgr := after
          log := net.log ++ [⟨net.peer, message, net.mgr, response, after⟩]
          stage := match response with
            | some response => .replying response 0
            | none => .hangingUp }
  | died {c : Client V} {stale : MessageBuffer} {bytes : Nat} {message : V} : net.stage = .reading →
      net.clients[net.peer]? = some c → readable c.toServer (!c.progress.isOpen) bytes →
      net.chan.readMessage codec stale (some (c.toServer.take bytes)) = .ok message →
      (∀ response after, serve message net.mgr ≠ .ok response after) →
      Moved codec backlog room serve net (.read stale (some bytes))
        { net.modifyClient net.peer fun c => { c with toServer := c.toServer.drop bytes } with stage := .dead }
  | notRead (stale : MessageBuffer) : net.stage = .reading →
      Moved codec backlog room serve net (.read stale none) { net with stage := .hangingUp }
  | taken {c : Client V} {response : V} {taken bytes : Nat} : net.stage = .replying response taken →
      net.clients[net.peer]? = some c → c.progress.isOpen → 0 < bytes → bytes ≤ (untaken codec response taken).length →
      c.toClient.length + bytes ≤ room → Moved codec backlog room serve net (.take bytes)
        { net.modifyClient net.peer fun c => { c with toClient := c.toClient ++ (untaken codec response taken).take bytes } with
          stage := .replying response (taken + bytes) }
  | replied {c : Client V} {response : V} {taken : Nat} {fails : Bool} : net.stage = .replying response taken →
      net.clients[net.peer]? = some c → (untaken codec response taken = [] ∨ c.progress.isOpen = false ∨ fails) →
      Moved codec backlog room serve net (.reply fails) { net with stage := .hangingUp }
  | hungUp : net.stage = .hangingUp → Moved codec backlog room serve net .hangUp
      { net.modifyClient net.peer fun c => { c with hungUp := true } with
        chan := { net.chan with peerfd := -1 }, stage := .waiting }
  | event (mgr : σ) : net.stage = .waiting → Moved codec backlog room serve net (.event mgr) { net with mgr }

theorem Moved.of_sends {i : Nat} {c : Client V} {accepts : Option Nat} (h : net.sends codec i c accepts = some net')
    (hc : net.clients[i]? = some c) (hp : c.progress = .connected) (hu : c.hungUp = false) :
    Moved codec backlog room serve net (.send i accepts) net' := by
  unfold sends at h
  cases hw : c.chan.writeMessage codec c.request accepts c.toServer with
  | ok u toServer =>
    rw [hw] at h
    cases h
    exact .sent hc hp hu hw
  | throw what toServer =>
    rw [hw] at h
    cases h
    exact .notSent hc hp hu
  | crash why =>
    rw [hw] at h
    cases h

theorem Moved.of_reads {c : Client V} {stale : MessageBuffer} {bytes : Nat} (h : net.reads codec serve c stale bytes = some net')
    (hs : net.stage = .reading) (hc : net.clients[net.peer]? = some c) (hr : readable c.toServer (!c.progress.isOpen) bytes) :
    Moved codec backlog room serve net (.read stale (some bytes)) net' := by
  unfold reads at h
  dsimp only at h
  cases hm : net.chan.readMessage codec stale (some (c.toServer.take bytes)) with
  | error what =>
    rw [hm] at h
    cases h
    exact .notParsed hs hc hr
  | ok message =>
    rw [hm] at h
    dsimp only at h
    cases hv : serve message net.mgr with
    | ok response after =>
      rw [hv] at h
      cases h
      exact .served hs hc hr hm hv
    | throw | crash =>
      rw [hv] at h
      cases h
      refine .died hs hc hr hm fun response after hok => ?_
      rw [hv] at hok
      cases hok

theorem moved (h : Next codec backlog room serve net move net') : Moved codec backlog room serve net move net' := by
  unfold Next at h
  cases move with
  | connect fd request =>
    rw [step] at h
    split at h
    · rename_i hlistens
      cases h
      exact .connect fd request hlistens.1 hlistens.2
    · cases h
  | send i accepts =>
    rw [step] at h
    cases hc : net.clients[i]? with
    | none => simp only [hc] at h; cases h
    | some c =>
      simp only [hc] at h
      split at h
      · rename_i hp hu
        exact .of_sends h hc hp hu
      · cases h
  | receive i stale bytes =>
    rw [step] at h
    cases hc : net.clients[i]? with
    | none => simp only [hc] at h; cases h
    | some c =>
      simp only [hc] at h
      split at h
      · rename_i hp
        split at h
        · rename_i hr
          cases h
          exact .received hc hp hr
        · cases h
      · cases h
  | leave i => cases h; exact .leave i
  | accept fd =>
    unfold step at h
    dsimp only at h
    split at h
    · rename_i hs
      split at h
      · rename_i hlt
        cases fd with
        | some fd => cases h; exact .accepted fd hs hlt
        | none => cases h; exact .notAccepted hs
      · cases h
    · cases h
  | read stale bytes =>
    unfold step at h
    dsimp only at h
    split at h
    · rename_i c hs hc
      cases bytes with
      | none => cases h; exact .notRead stale hs
      | some bytes =>
        dsimp only at h
        split at h
        · rename_i hr
          exact .of_reads h hs hc hr
        · cases h
    · cases h
  | take bytes =>
    rw [step] at h
    split at h
    · rename_i response taken c hs hc
      unfold takes at h
      split at h
      · rename_i ht
        cases h
        exact .taken hs hc ht.1 ht.2.1 ht.2.2.1 ht.2.2.2
      · cases h
    · cases h
  | reply fails =>
    rw [step] at h
    split at h
    · rename_i response taken c hs hc
      unfold replies at h
      split at h
      · rename_i hreturns
        split at h
        · cases h
          exact .replied hs hc hreturns
        · cases h
        · cases h
      · cases h
    · cases h
  | hangUp =>
    rw [step] at h
    split at h
    · rename_i hs
      cases h
      exact .hungUp hs
    · cases h
  | event mgr =>
    rw [step] at h
    split at h
    · rename_i hs
      cases h
      exact .event mgr hs
    · cases h

def incoming (codec : Codec V) (net : Net σ V) (c : Client V) (stale : MessageBuffer) (bytes : Nat) : Option V :=
  (net.chan.readMessage codec stale (some (c.toServer.take bytes))).toOption

/-- What the manager has done by the time it writes or hangs up is what `rpc_dispatch` does. -/
theorem reads_dispatch (net : Net Sys Json) (codec : Codec Json) (c : Client Json) (stale : MessageBuffer) (bytes : Nat) :
    ∃ net', net.reads codec Rpc.answer c stale bytes = some net' ∧
      ((∃ response, net'.stage = .replying response 0 ∧ Rpc.rpcDispatch (net.incoming codec c stale bytes) net.mgr =
          Prog.tryCatch (Rpc.writeMessage response) (fun _ => return ()) net'.mgr) ∨
        (net'.stage = .hangingUp ∧ Rpc.rpcDispatch (net.incoming codec c stale bytes) net.mgr = .ok () net'.mgr) ∨
        (net'.stage = .dead ∧ ∃ why, Rpc.rpcDispatch (net.incoming codec c stale bytes) net.mgr = .crash why)) := by
  unfold reads incoming
  dsimp only
  cases net.chan.readMessage codec stale (some (c.toServer.take bytes)) with
  | error what => exact ⟨_, rfl, .inr (.inl ⟨rfl, rfl⟩)⟩
  | ok message =>
    have hno : ∀ what after, Rpc.answer message net.mgr ≠ .throw what after := by
      intro what after hthrow
      unfold Rpc.answer Prog.tryCatch at hthrow
      split at hthrow
      · cases hthrow
      · rename_i hnot
        exact hnot _ _ hthrow
    have hd : Rpc.rpcDispatch (Except.ok (ε := String) message).toOption net.mgr = _ :=
      congrFun (Rpc.rpcDispatch_eq message) net.mgr
    rw [hd]
    dsimp only
    cases hv : Rpc.answer message net.mgr with
    | throw what after => exact absurd hv (hno what after)
    | crash why =>
      dsimp only
      refine ⟨_, rfl, .inr (.inr ?_)⟩
      exact ⟨rfl, why, bind_crash hv⟩
    | ok response after =>
      rw [bind_ok hv]
      dsimp only
      cases response with
      | some response =>
        refine ⟨_, rfl, .inl ?_⟩
        exact ⟨response, rfl, rfl⟩
      | none =>
        refine ⟨_, rfl, .inr (.inl ?_)⟩
        exact ⟨rfl, rfl⟩

/-! ## What holds in every run -/

/-- What the manager has done for a client. -/
structure Attended (codec : Codec V) (log : List (Served σ V)) (accepted : Nat) (stage : Stage V) (i : Nat) (c : Client V) :
    Prop where
  hung : c.hungUp → i < accepted ∧ (stage = .waiting ∨ i ≠ accepted - 1)
  own : c.toClient ≠ [] → ∃ e ∈ log, e.client = i ∧ ∃ response, e.response = some response ∧
    c.toClient <:+: codec.dump response ++ [0]
  /-- What the kernel has taken of a reply is there, but for what the client has read. -/
  partly : ∀ response taken, stage = .replying response taken → i = accepted - 1 →
    ∃ read ≤ taken, c.toClient = ((codec.dump response ++ [0]).take taken).drop read
  linked : c.chan.Connected

structure Inv (codec : Codec V) (serve : V → Prog σ (Option V)) (net : Net σ V) : Prop where
  le : net.accepted ≤ net.clients.length
  sock : 0 ≤ net.chan.sockfd
  idle : net.stage = .waiting → net.chan.peerfd < 0
  busy : net.stage ≠ .waiting → 0 < net.accepted ∧ 0 ≤ net.chan.peerfd
  ordered : net.log.Pairwise fun a b => a.client < b.client
  before : ∀ e ∈ net.log, e.client < net.accepted
  notYet : net.stage = .reading → ∀ e ∈ net.log, e.client < net.peer
  ran : ∀ e ∈ net.log, serve e.message e.before = .ok e.response e.after
  current : ∀ response taken, net.stage = .replying response taken →
    taken ≤ (codec.dump response ++ [0]).length ∧ ∃ e ∈ net.log, e.client = net.peer ∧ e.response = some response
  clients : ∀ i c, net.clients[i]? = some c → Attended codec net.log net.accepted net.stage i c

theorem init_inv (h : Init net) : Inv codec serve net := by
  obtain ⟨mgr, sockfd, hsock, rfl⟩ := h
  have hclosed : (-1 : Int) < 0 := by decide
  refine ⟨le_rfl, hsock, fun _ => hclosed, fun hs => absurd rfl hs, .nil, ?_, ?_, ?_, ?_, ?_⟩ <;> simp

section Inv

variable (h : Inv codec serve net)

include h

/-- A move of one client. -/
theorem Inv.modify {f : Client V → Client V}
    (hf : ∀ c, Attended codec net.log net.accepted net.stage i c → Attended codec net.log net.accepted net.stage i (f c)) :
    Inv codec serve (net.modifyClient i f) :=
  ⟨(modifyClient_length f).symm ▸ h.le, h.sock, h.idle, h.busy, h.ordered, h.before, h.notYet, h.ran, h.current,
    of_modifyClient h.clients fun c _ => hf c⟩

/-- A client that is connected to the manager has a place among the others. -/
theorem Inv.peer_lt (hs : net.stage ≠ .waiting) : net.peer < net.clients.length := by
  have hle := h.le
  have hpos := (h.busy hs).1
  unfold peer
  omega

/-- The manager is done with its peer, or dead. -/
theorem Inv.givesUp {stage : Stage V} (hne : net.stage ≠ .waiting) (hstage : stage = .hangingUp ∨ stage = .dead) :
    Inv codec serve { net with stage } := by
  have hlate : stage ≠ .waiting ∧ stage ≠ .reading ∧ ∀ response taken, stage ≠ .replying response taken := by
    rcases hstage with rfl | rfl <;> simp
  refine ⟨h.le, h.sock, fun hw => absurd hw hlate.1, fun _ => h.busy hne, h.ordered, h.before, fun hr => absurd hr hlate.2.1,
    h.ran, fun response taken hr => absurd hr (hlate.2.2 response taken), fun i c hc => ?_⟩
  have ha := h.clients i c hc
  exact ⟨fun hu => ⟨(ha.hung hu).1, .inr ((ha.hung hu).2.resolve_left hne)⟩, ha.own,
    fun response taken hr => absurd hr (hlate.2.2 response taken), ha.linked⟩

/-- Before it has read the message of its peer, the manager has not said anything to it. -/
theorem Inv.silent (hs : net.stage = .reading) (hc : net.clients[net.peer]? = some c) : c.toClient = [] := by
  by_contra hne
  obtain ⟨e, he, hi, -⟩ := (h.clients _ c hc).own hne
  have hlt := h.notYet hs e he
  omega

theorem Inv.serves {message : V} {response : Option V} {after : σ} {stage : Stage V} (hs : net.stage = .reading)
    (hv : serve message net.mgr = .ok response after)
    (hstage : stage = .hangingUp ∨ ∃ r, stage = .replying r 0 ∧ response = some r) :
    Inv codec serve { net with
      mgr := after
      log := net.log ++ [⟨net.peer, message, net.mgr, response, after⟩]
      stage } := by
  have hne : net.stage ≠ .waiting := by rw [hs]; simp
  have hbusy := h.busy hne
  have hwaiting : stage ≠ .waiting := by
    rcases hstage with rfl | ⟨r, rfl, -⟩ <;> simp
  have hzero : ∀ r taken, stage = .replying r taken → taken = 0 := by
    intro r taken hr
    rcases hstage with hst | ⟨r', hst, -⟩ <;> cases hst.symm.trans hr
    rfl
  refine ⟨h.le, h.sock, fun hw => absurd hw hwaiting, fun _ => hbusy, ?_, fun e he => ?_, fun hr => ?_, fun e he => ?_,
    fun r taken hr => ?_, fun i c hc => ?_⟩
  · refine List.pairwise_append.mpr ⟨h.ordered, List.pairwise_singleton .., fun a ha b hb => ?_⟩
    rw [List.mem_singleton.mp hb]
    exact h.notYet hs a ha
  · rcases List.mem_append.mp he with he | he
    · exact h.before e he
    · rw [List.mem_singleton.mp he]
      show net.accepted - 1 < net.accepted
      omega
  · rcases hstage with hst | ⟨r, hst, -⟩ <;> cases hst.symm.trans hr
  · rcases List.mem_append.mp he with he | he
    · exact h.ran e he
    · rw [List.mem_singleton.mp he]
      exact hv
  · rcases hstage with hst | ⟨r', hst, hresponse⟩
    · cases hst.symm.trans hr
    · cases hst.symm.trans hr
      exact ⟨Nat.zero_le _, _, List.mem_append_right _ (List.mem_singleton_self _), rfl, hresponse⟩
  · have ha := h.clients i c hc
    refine ⟨fun hu => ⟨(ha.hung hu).1, .inr ((ha.hung hu).2.resolve_left hne)⟩, fun hn => ?_, fun r taken hr hi => ?_, ha.linked⟩
    · obtain ⟨e, he, hown⟩ := ha.own hn
      exact ⟨e, List.mem_append_left _ he, hown⟩
    · have hpeer : i = net.peer := hi
      rw [hpeer] at hc
      exact ⟨0, Nat.zero_le _, by rw [h.silent hs hc, hzero r taken hr, List.take_zero, List.drop_nil]⟩

end Inv

section Taking

variable {response : V} {taken : Nat}

/-- The bytes that the kernel has taken, and those it takes next. -/
theorem take_untaken {read bytes : Nat} (hr : read ≤ taken) (ht : taken ≤ (codec.dump response ++ [0]).length) :
    ((codec.dump response ++ [0]).take taken).drop read ++ (untaken codec response taken).take bytes =
      ((codec.dump response ++ [0]).take (taken + bytes)).drop read := by
  have hlen : read ≤ ((codec.dump response ++ [0]).take taken).length := by
    rw [List.length_take, Nat.min_eq_left ht]
    exact hr
  rw [untaken, List.take_add, List.drop_append_of_le_length hlen]

/-- What is in the socket of a client that is being answered is of its answer. -/
theorem Inv.own_of_partly (h : Inv codec serve net) (hs : net.stage = .replying response taken) {toClient : Bytes}
    (hpart : ∃ read taken', toClient = ((codec.dump response ++ [0]).take taken').drop read) :
    ∃ e ∈ net.log, e.client = net.accepted - 1 ∧ ∃ response, e.response = some response ∧ toClient <:+: codec.dump response ++ [0] := by
  obtain ⟨-, e, he, hi, hresponse⟩ := h.current response taken hs
  obtain ⟨read, taken', rfl⟩ := hpart
  exact ⟨e, he, hi, response, hresponse, (List.drop_suffix _ _).isInfix.trans (List.take_prefix _ _).isInfix⟩

end Taking

/-- A client reads what it has of a reply, and no more is taken away. -/
theorem Inv.receives {i bytes : Nat} {c₀ : Client V} {stale : MessageBuffer} (h : Inv codec serve net) :
    Inv codec serve (net.receives codec i c₀ stale bytes) := by
  refine h.modify fun c hc => ⟨hc.hung, fun hne => ?_, fun r taken hr hi => ?_, hc.linked⟩
  · have hne' : c.toClient ≠ [] := fun hnil => hne (by rw [hnil, List.drop_nil])
    obtain ⟨e, he, hi, r, hr, hinfix⟩ := hc.own hne'
    exact ⟨e, he, hi, r, hr, (List.drop_suffix bytes c.toClient).isInfix.trans hinfix⟩
  · obtain ⟨-, hsize, -⟩ := h.current r taken hr
    obtain ⟨read, hread, hto⟩ := hc.partly r taken hr hi
    refine ⟨min (read + bytes) taken, Nat.min_le_right .., ?_⟩
    show c.toClient.drop bytes = _
    rw [hto, List.drop_drop]
    by_cases hle : read + bytes ≤ taken
    · rw [Nat.min_eq_left hle]
    · rw [Nat.min_eq_right (Nat.le_of_not_le hle), List.drop_of_length_le, List.drop_of_length_le]
      · exact List.length_take_le ..
      · exact (List.length_take_le ..).trans (Nat.le_of_not_le hle)

/-- The kernel takes more of the reply. -/
theorem Inv.takes {c : Client V} {response : V} {taken bytes : Nat} (h : Inv codec serve net)
    (hs : net.stage = .replying response taken) (hc : net.clients[net.peer]? = some c)
    (hbytes : bytes ≤ (untaken codec response taken).length) : Inv codec serve
      { net.modifyClient net.peer fun c => { c with toClient := c.toClient ++ (untaken codec response taken).take bytes } with
        stage := .replying response (taken + bytes) } := by
  have hne : net.stage ≠ .waiting := by rw [hs]; simp
  obtain ⟨hsize, hserved⟩ := h.current response taken hs
  have hafter : taken + bytes ≤ (codec.dump response ++ [0]).length := by
    rw [untaken, List.length_drop] at hbytes
    omega
  -- what is in the socket is now part of the first `taken + bytes` bytes
  have hpart : ∃ read ≤ taken, c.toClient ++ (untaken codec response taken).take bytes =
      ((codec.dump response ++ [0]).take (taken + bytes)).drop read := by
    obtain ⟨read, hread, hto⟩ := (h.clients _ c hc).partly response taken hs rfl
    exact ⟨read, hread, by rw [hto, take_untaken hread hsize]⟩
  have hclients : ∀ i c', (net.modifyClient net.peer fun c => { c with toClient := c.toClient ++ (untaken codec response taken).take bytes
      }).clients[i]? = some c' → Attended codec net.log net.accepted (.replying response (taken + bytes)) i c' := by
    intro i c' hc'
    rw [modifyClient_get] at hc'
    split at hc'
    · rename_i hi
      subst hi
      rw [hc] at hc'
      cases hc'
      have ha := h.clients _ c hc
      refine ⟨fun hu => ⟨(ha.hung hu).1, .inr ((ha.hung hu).2.resolve_left hne)⟩, fun _ => ?_, fun r t hr _ => ?_, ha.linked⟩
      · obtain ⟨read, -, hto⟩ := hpart
        exact h.own_of_partly hs ⟨read, _, hto⟩
      · cases hr
        obtain ⟨read, hread, hto⟩ := hpart
        exact ⟨read, Nat.le_add_right_of_le hread, hto⟩
    · rename_i hi
      have ha := h.clients i c' hc'
      exact ⟨fun hu => ⟨(ha.hung hu).1, .inr ((ha.hung hu).2.resolve_left hne)⟩, ha.own, fun _ _ _ e => absurd e.symm hi, ha.linked⟩
  exact ⟨(modifyClient_length _).symm ▸ h.le, h.sock, by simp, fun _ => h.busy hne, h.ordered, h.before, by simp, h.ran,
    fun r t hr => by cases hr; exact ⟨hafter, hserved⟩, hclients⟩

theorem Inv.next (h : Inv codec serve net) (hn : Next codec backlog room serve net move net') : Inv codec serve net' := by
  cases moved hn with
  | connect fd request =>
    refine ⟨?_, h.sock, h.idle, h.busy, h.ordered, h.before, h.notYet, h.ran, h.current, fun i c hc => ?_⟩
    · rw [List.length_append]
      exact Nat.le_add_right_of_le h.le
    · by_cases hi : i < net.clients.length
      · rw [List.getElem?_append_left hi] at hc
        exact h.clients i c hc
      · rw [List.getElem?_append_right (Nat.not_lt.mp hi), List.getElem?_singleton] at hc
        split at hc
        · cases hc
          have hlinked : Channel.Connected { sockfd := fd } := fun hc => by
            have hfd := hc.2
            dsimp only at hfd
            omega
          refine ⟨by simp, by simp, fun response taken hs hpeer => ?_, hlinked⟩
          have hlt := h.peer_lt (by rw [hs]; simp)
          have hi' : i = net.peer := hpeer
          omega
        · cases hc
  | sent | notSent | leave => exact h.modify fun c hc => ⟨hc.hung, hc.own, hc.partly, hc.linked⟩
  | received => exact h.receives
  | accepted fd hs hlt =>
    refine ⟨hlt, h.sock, by simp, fun _ => ⟨Nat.succ_pos _, Int.natCast_nonneg fd⟩, h.ordered,
      fun e he => Nat.lt_succ_of_lt (h.before e he), fun _ e he => h.before e he, h.ran, by simp, fun i c hc => ?_⟩
    have ha := h.clients i c hc
    refine ⟨fun hu => ?_, ha.own, by simp, ha.linked⟩
    have hi := (ha.hung hu).1
    exact ⟨Nat.lt_succ_of_lt hi, .inr (Nat.ne_of_lt hi)⟩
  | notAccepted => exact h
  | @notParsed c stale bytes hs hc hr =>
    exact (h.givesUp (by rw [hs]; simp) (.inl rfl)).modify fun c hc => ⟨hc.hung, hc.own, hc.partly, hc.linked⟩
  | died hs => exact (h.givesUp (by rw [hs]; simp) (.inr rfl)).modify fun c hc => ⟨hc.hung, hc.own, hc.partly, hc.linked⟩
  | @served c stale bytes message response after hs hc hr hm hv =>
    refine (h.serves hs hv ?_).modify fun c hc => ⟨hc.hung, hc.own, hc.partly, hc.linked⟩
    cases response with
    | none => exact .inl rfl
    | some response => exact .inr ⟨response, rfl, rfl⟩
  | notRead stale hs => exact h.givesUp (by rw [hs]; simp) (.inl rfl)
  | taken hs hc _ _ hbytes _ => exact h.takes hs hc hbytes
  | replied hs => exact h.givesUp (by rw [hs]; simp) (.inl rfl)
  | hungUp hs =>
    have hne : net.stage ≠ .waiting := by rw [hs]; simp
    have hpos := (h.busy hne).1
    have hclients : ∀ i c, (net.modifyClient net.peer fun c => { c with hungUp := true }).clients[i]? = some c →
        Attended codec net.log net.accepted .waiting i c := by
      refine of_modifyClient (fun i c hc => ?_) fun c _ ha => ⟨fun _ => ⟨?_, .inl rfl⟩, ha.own, by simp, ha.linked⟩
      · have ha := h.clients i c hc
        exact ⟨fun hu => ⟨(ha.hung hu).1, .inl rfl⟩, ha.own, by simp, ha.linked⟩
      · unfold peer
        omega
    have hclosed : (-1 : Int) < 0 := by decide
    exact ⟨(modifyClient_length _).symm ▸ h.le, h.sock, fun _ => hclosed, fun hw => absurd rfl hw, h.ordered, h.before, by simp,
      h.ran, by simp, hclients⟩
  | event mgr hs =>
    exact ⟨h.le, h.sock, h.idle, h.busy, h.ordered, h.before, h.notYet, h.ran, h.current, h.clients⟩

theorem reach_inv (h : Reach Init (Next codec backlog room serve) net) : Inv codec serve net :=
  h.invariant (fun _ => init_inv) fun _ _ _ hi hn => hi.next hn

/-- The read of a message from the manager's peer, and the run of the handler for it. -/
structure RanIn (codec : Codec V) (e : Served σ V) (move : Move σ V) (before after : Net σ V) : Prop where
  reading : before.stage = .reading
  peer : before.peer = e.client
  mgr : before.mgr = e.before
  message : ∃ stale bytes c, move = .read stale (some bytes) ∧ before.clients[before.peer]? = some c ∧
    before.chan.readMessage codec stale (some (c.toServer.take bytes)) = .ok e.message
  left : after.mgr = e.after ∧ after.log = before.log ++ [e]

theorem next_logged (hn : Next codec backlog room serve net move net') {e : Served σ V} (he : e ∈ net'.log) (hnot : e ∉ net.log) :
    RanIn codec e move net net' := by
  cases moved hn with
  | @served c stale bytes message response after hs hc hr hm hv =>
    rcases List.mem_append.mp he with he | he
    · exact absurd he hnot
    · rw [List.mem_singleton.mp he]
      exact ⟨hs, rfl, rfl, ⟨stale, bytes, c, rfl, hc, hm⟩, rfl, rfl⟩
  | connect | sent | notSent | received | leave | accepted | notAccepted | notParsed | died | notRead | taken | replied | hungUp
  | event => exact absurd he hnot

/-- Every run of a handler stands in the run of the manager. -/
theorem ran_in_run (h : Reach Init (Next codec backlog room serve) net) {e : Served σ V} (he : e ∈ net.log) :
    ∃ before move after, Reach Init (Next codec backlog room serve) before ∧ Next codec backlog room serve before move after ∧
      RanIn codec e move before after ∧ Later (Next codec backlog room serve) after net := by
  induction h with
  | init hi =>
    obtain ⟨mgr, sockfd, -, rfl⟩ := hi
    cases he
  | @step net net' move hr hn ih =>
    by_cases hin : e ∈ net.log
    · obtain ⟨before, move', after, hb, hstep, hran, hl⟩ := ih hin
      exact ⟨before, move', after, hb, hstep, hran, hl.tail ⟨move, hn⟩⟩
    · exact ⟨net, move, net', hr, hn, next_logged hn he hin, .refl⟩

/-- However the clients connect, write, read and die: the manager runs at most one handler for a
    connection, in the order in which they were made, with the message it has read from it and in
    the state it has then; what a client finds in its socket is of the reply of that run, and the
    manager never has two peers. -/
theorem served_in_order (h : Reach Init (Next codec backlog room serve) net) :
    (net.log.Pairwise fun a b => a.client < b.client) ∧
      (∀ e ∈ net.log, e.client < net.accepted ∧ serve e.message e.before = .ok e.response e.after ∧
        ∃ before move after, Reach Init (Next codec backlog room serve) before ∧ Next codec backlog room serve before move after ∧
          RanIn codec e move before after ∧ Later (Next codec backlog room serve) after net) ∧
      (∀ i c, net.clients[i]? = some c → c.toClient ≠ [] → ∃ e ∈ net.log, e.client = i ∧
        ∃ response, e.response = some response ∧ c.toClient <:+: codec.dump response ++ [0]) ∧
      (net.stage = .waiting ↔ net.chan.peerfd < 0) := by
  have hinv := reach_inv h
  refine ⟨hinv.ordered, fun e he => ⟨hinv.before e he, hinv.ran e he, ran_in_run h he⟩,
    fun i c hc => (hinv.clients i c hc).own, hinv.idle, fun hpeer => ?_⟩
  by_contra hne
  have hopen := (hinv.busy hne).2
  omega

/-- A manager that counts its requests, and answers with the sum of the request and the count. -/
def sums (message count : Nat) : Res Nat (Option Nat) := .ok (some (message + count)) (count + 1)

def listening : Net Nat Nat := { mgr := 0, chan := { sockfd := 3 } }

theorem listening_init : Init listening := ⟨0, 3, by decide, rfl⟩

/-- A state after some moves that pass a check. -/
theorem reach_of_play {C : Net Nat Nat → Move Nat Nat → Prop} (check : Net Nat Nat → Move Nat Nat → Bool)
    (hc : ∀ net move, check net move → C net move) (moves : List (Move Nat Nat)) (p : Net Nat Nat → Bool)
    (h : (watch (step Codec.letters 1024 64 sums) check (fun _ _ => (none : Option Unit)) listening moves).any fun r => p r.1) :
    ∃ net, Reach Init (Under (Next Codec.letters 1024 64 sums) C) net ∧ p net := by
  obtain ⟨r, hr, hp⟩ := (Option.any_eq_true _ _).mp h
  exact ⟨r.1, (trace_of_watch hc (.init listening_init) hr).reach, hp⟩

/-- Two clients connect; the second writes first, and is served second. -/
theorem served_in_order_two : ∃ net : Net Nat Nat, net.log.map (·.client) = [0, 1] ∧
    (net.log.Pairwise fun a b => a.client < b.client) ∧
    (∀ e ∈ net.log, e.client < net.accepted ∧ sums e.message e.before = .ok e.response e.after ∧
      ∃ before move after, Reach Init (Next Codec.letters 1024 64 sums) before ∧ Next Codec.letters 1024 64 sums before move after ∧
        RanIn Codec.letters e move before after ∧ Later (Next Codec.letters 1024 64 sums) after net) ∧
    (∀ i c, net.clients[i]? = some c → c.toClient ≠ [] → ∃ e ∈ net.log, e.client = i ∧
      ∃ response, e.response = some response ∧ c.toClient <:+: Codec.letters.dump response ++ [0]) ∧
    (net.stage = .waiting ↔ net.chan.peerfd < 0) := by
  obtain ⟨net, hreach, hp⟩ := reach_of_play (C := fun _ _ => True) (fun _ _ => true) (fun _ _ _ => trivial)
    [.connect 5 7, .connect 6 8, .send 1 (some 64), .accept (some 4), .send 0 (some 64), .read Channel.zeros (some 10),
      .take 10, .reply false, .hangUp, .accept (some 4), .read Channel.zeros (some 11), .take 12, .reply false, .hangUp]
    (fun net => net.log.map (·.client) = [0, 1]) (by decide +kernel)
  exact ⟨net, of_decide_eq_true hp, served_in_order hreach.of_under⟩

/-! ## The answer to one's own request -/

/-- The messages from and to the client `j` fit, and its reads and writes, on either side, are of
    whole messages. It is not said that they succeed, or anything of the other clients. -/
def Whole (codec : Codec V) (j : Nat) (net : Net σ V) : Move σ V → Prop
  | .send i accepts => i = j → ∀ c, net.clients[j]? = some c →
    Channel.AcceptsAll codec c.request accepts ∧ (codec.dump c.request).length ≤ ipcMaxMsglen
  | .read _ bytes => net.peer = j → ∀ c, net.clients[j]? = some c → bytes = none ∨ bytes = some (min c.toServer.length ipcMaxMsglen)
  | .reply fails => net.peer = j → ∀ response taken, net.stage = .replying response taken →
    fails = false ∧ (codec.dump response).length ≤ ipcMaxMsglen
  | .receive i _ bytes => i = j → ∀ c, net.clients[j]? = some c → c.toClient ≠ [] ∧ bytes = min c.toClient.length ipcMaxMsglen ∧
    (net.peer = j → ∀ response taken, net.stage ≠ .replying response taken)
  | .connect .. | .leave _ | .accept _ | .take _ | .hangUp | .event _ => True

/-- What the kernel has taken of the reply is in the socket, and in the end all of it. -/
structure Told (codec : Codec V) (log : List (Served σ V)) (accepted : Nat) (stage : Stage V) (j : Nat) (toClient : Bytes) :
    Prop where
  partly : ∀ response taken, stage = .replying response taken → accepted - 1 = j →
    toClient = (codec.dump response ++ [0]).take taken
  wholly : (∀ response taken, stage = .replying response taken → accepted - 1 ≠ j) → toClient ≠ [] →
    ∃ e ∈ log, e.client = j ∧ ∃ response, e.response = some response ∧
      toClient = codec.dump response ++ [0] ∧ (codec.dump response).length ≤ ipcMaxMsglen

/-- What the client `j` has come to, and what the manager has to do with it. -/
def Heard (codec : Codec V) (log : List (Served σ V)) (accepted : Nat) (stage : Stage V) (j : Nat) (c : Client V) : Prop :=
  match c.progress with
  | .connected => c.toServer = [] ∧ c.toClient = [] ∧ ∀ e ∈ log, e.client ≠ j
  | .sent => (codec.dump c.request).length ≤ ipcMaxMsglen ∧
    (∀ e ∈ log, e.client = j → e.message = c.request) ∧
    (accepted ≤ j ∨ stage = .reading ∧ accepted - 1 = j → c.toServer = codec.dump c.request ++ [0]) ∧
    Told codec log accepted stage j c.toClient
  | .answered reply => ∃ e ∈ log, e.client = j ∧ e.message = c.request ∧ e.response = some reply
  | .gone => True

theorem Heard.gone {log : List (Served σ V)} {accepted : Nat} {stage : Stage V} (hp : c.progress = .gone) :
    Heard codec log accepted stage j c := by
  unfold Heard
  rw [hp]
  trivial

def Mute (stage : Stage V) : Prop := ∀ response taken, stage ≠ .replying response taken

theorem Told.mute {log : List (Served σ V)} {accepted accepted' : Nat} {stage stage' : Stage V} {toClient : Bytes}
    (h : Told codec log accepted stage j toClient) (hs : Mute stage) (hs' : Mute stage') :
    Told codec log accepted' stage' j toClient :=
  ⟨fun response taken hr => absurd hr (hs' response taken), fun _ hne => h.wholly (fun response taken hr => absurd hr (hs response taken)) hne⟩

/-- What is in the socket of a client that has sent its message matters until it has been read. -/
theorem Heard.stage {log : List (Served σ V)} {accepted : Nat} {stage stage' : Stage V} {toServer : Bytes} {hungUp : Bool}
    (h : Heard codec log accepted stage j c) (hs : stage' ≠ .reading)
    (ht : c.progress = .sent → Told codec log accepted stage j c.toClient → Told codec log accepted stage' j c.toClient)
    (hto : accepted ≤ j ∨ c.toServer = [] → toServer = c.toServer) :
    Heard codec log accepted stage' j { c with toServer, hungUp } := by
  unfold Heard at h ⊢
  dsimp only
  split
  · rename_i hp
    rw [hp] at h
    exact ⟨(hto (.inr h.1)).trans h.1, h.2⟩
  · rename_i hp
    rw [hp] at h
    refine ⟨h.1, h.2.1, fun hread => ?_, ht hp h.2.2.2⟩
    have hle := hread.resolve_right fun hr => hs hr.1
    exact (hto (.inl hle)).trans (h.2.2.1 (.inl hle))
  · rename_i reply hp
    rw [hp] at h
    exact h
  · trivial

/-- A reply is written or not; either way the manager goes on. -/
theorem respond_ends (chan : Channel) (response : V) (accepts : Option Nat) (stream : Bytes) :
    ∃ told toClient, chan.respond codec response accepts stream = .ok told toClient := by
  unfold Channel.respond Prog.tryCatch
  by_cases hc : chan.Connected
  · have hw := @Channel.writeMessage_eq V codec chan response accepts stream hc
    dsimp only at hw
    split at hw
    · rw [bind_throw hw]
      exact ⟨false, _, rfl⟩
    · rw [bind_ok hw]
      exact ⟨true, _, rfl⟩
  · have hw : chan.writeMessage codec response accepts stream = .throw "must call accept() or connect() first" stream := by
      rw [Channel.writeMessage, if_pos hc]
      rfl
    rw [bind_throw hw]
    exact ⟨false, _, rfl⟩

/-- All of a message that fits is read at once. -/
theorem reads_whole {chan : Channel} {stale : MessageBuffer} {stream : Bytes} {v : V} (hc : chan.Connected)
    (hlen : (codec.dump v).length ≤ ipcMaxMsglen) (hs : stream = codec.dump v ++ [0]) :
    chan.readMessage codec stale (some (stream.take (min stream.length ipcMaxMsglen))) = .ok v := by
  have hread : stream.take (min stream.length ipcMaxMsglen) = Channel.oneRead (codec.dump v ++ [0]) := by
    rw [Channel.oneRead, ← hs, Nat.min_comm, ← List.take_take, List.take_length]
  rw [Channel.readMessage_ok hc, hread, Channel.oneRead_message hlen, codec.parse_dump]

def Hears (codec : Codec V) (j : Nat) (net : Net σ V) : Prop :=
  ∀ i c, net.clients[i]? = some c → i = j → Heard codec net.log net.accepted net.stage j c

/-- The client writes its message, all of it. -/
theorem Hears.sent (h : Inv codec serve net) (hj : Hears codec j net) {accepts : Option Nat} {toServer : Bytes} (hc : net.clients[i]? = some c)
    (hp : c.progress = .connected) (hw : c.chan.writeMessage codec c.request accepts c.toServer = .ok () toServer)
    (hwhole : Whole codec j net (.send i accepts)) :
    Hears codec j (net.modifyClient i fun c => { c with toServer, progress := .sent }) := by
  refine of_modifyClient (P := fun i c => i = j → Heard codec net.log net.accepted net.stage j c) hj fun c' hc' ho e => ?_
  subst e
  rw [hc] at hc'
  cases hc'
  have hheard := ho rfl
  unfold Heard at hheard
  rw [hp] at hheard
  obtain ⟨hempty, hnone, hlog⟩ := hheard
  obtain ⟨hall, hlen⟩ := hwhole rfl c hc
  have hto : toServer = codec.dump c.request ++ [0] := by
    rcases Channel.writeMessage_ok hw with ⟨ha, -⟩ | ⟨-, hto⟩
    · obtain ⟨n, hn, -⟩ := hall
      rw [hn] at ha
      cases ha
    · rw [hto, hempty, List.nil_append]
  refine ⟨hlen, fun e he hi => absurd hi (hlog e he), fun _ => hto, fun response taken hs hpeer => ?_, fun _ hne => absurd hnone hne⟩
  obtain ⟨-, e, he, hi, -⟩ := h.current response taken hs
  exact absurd (hi.trans hpeer) (hlog e he)

section Hears

variable (h : Inv codec serve net) (hj : Hears codec j net)

include h hj

/-- The client reads its reply, all of it. -/
theorem Inv.hears_received {stale : MessageBuffer} {bytes : Nat} (hc : net.clients[i]? = some c) (hp : c.progress = .sent)
    (hwhole : Whole codec j net (.receive i stale bytes)) : Hears codec j (net.receives codec i c stale bytes) := by
  refine of_modifyClient (P := fun i c => i = j → Heard codec net.log net.accepted net.stage j c) hj fun c' hc' ho e => ?_
  subst e
  rw [hc] at hc'
  cases hc'
  have hheard := ho rfl
  unfold Heard at hheard
  rw [hp] at hheard
  obtain ⟨-, hmessage, -, hreply⟩ := hheard
  obtain ⟨hne, rfl, hwritten⟩ := hwhole rfl c hc
  obtain ⟨e, he, hi, response, hresponse, hto, hlen⟩ :=
    hreply.wholly (fun response taken hs hpeer => hwritten hpeer response taken hs) hne
  unfold Heard
  rw [reads_whole (h.clients i c hc).linked hlen hto]
  exact ⟨e, he, hi, hmessage e he hi, hresponse⟩

/-- The manager reads the message of the client, all of it, and answers that. -/
theorem Inv.hears_served {stale : MessageBuffer} {bytes : Nat} {message : V} {response : Option V} {after : σ} {stage : Stage V}
    (hs : net.stage = .reading) (hc : net.clients[net.peer]? = some c) (hr : readable c.toServer (!c.progress.isOpen) bytes)
    (hm : net.chan.readMessage codec stale (some (c.toServer.take bytes)) = .ok message)
    (hfirst : stage ≠ .reading ∧ ∀ r taken, stage = .replying r taken → taken = 0)
    (hwhole : Whole codec j net (.read stale (some bytes))) :
    Hears codec j { net.modifyClient net.peer fun c => { c with toServer := c.toServer.drop bytes } with
      mgr := after
      log := net.log ++ [⟨net.peer, message, net.mgr, response, after⟩]
      stage } := by
  have hne : net.stage ≠ .waiting := by rw [hs]; simp
  have hpos := (h.busy hne).1
  have hlinked : net.chan.Connected := fun hclosed => absurd h.sock (not_le.mpr hclosed.2)
  have hmute : Mute net.stage := by rw [hs]; exact fun _ _ => by simp
  obtain ⟨hstage, hzero⟩ := hfirst
  have hadd : ∀ {P : Served σ V → Prop}, (∃ e ∈ net.log, P e) →
      ∃ e ∈ net.log ++ [⟨net.peer, message, net.mgr, response, after⟩], P e := by
    intro P he
    obtain ⟨e, he, hp⟩ := he
    exact ⟨e, List.mem_append_left _ he, hp⟩
  refine of_modifyClient (P := fun i c => i = j → Heard codec (net.log ++ [⟨net.peer, message, net.mgr, response, after⟩])
    net.accepted stage j c) (fun i c' hc' e => ?_) fun c' hc' ho e => ?_
  · subst e
    have hheard := hj i c' hc' rfl
    by_cases hi : i = net.peer
    · subst hi
      rw [hc] at hc'
      cases hc'
      unfold Heard at hheard ⊢
      split
      · rename_i hp
        rw [hp] at hheard hr
        rw [hheard.1] at hr
        cases hr
      · rename_i hp
        rw [hp] at hheard
        obtain ⟨hlen, hmessage, hto, -⟩ := hheard
        have hbytes := (hwhole rfl c hc).resolve_left (by simp)
        cases hbytes
        have hread : net.chan.readMessage codec stale (some (c.toServer.take (min c.toServer.length ipcMaxMsglen))) = .ok c.request :=
          reads_whole hlinked hlen (hto (.inr ⟨hs, rfl⟩))
        rw [hm] at hread
        cases hread
        have hnone : c.toClient = [] := h.silent hs hc
        refine ⟨hlen, fun e he hi => ?_, fun hlate => ?_, fun r taken hr _ => ?_, fun _ hne => absurd hnone hne⟩
        · rcases List.mem_append.mp he with he | he
          · exact hmessage e he hi
          · rw [List.mem_singleton.mp he]
        · rcases hlate with hlate | ⟨hlate, -⟩
          · have hpeer : net.peer < net.accepted := by unfold peer; omega
            omega
          · exact absurd hlate hstage
        · rw [hzero r taken hr, List.take_zero]
          exact hnone
      · rename_i hp
        rw [hp] at hheard
        exact hadd hheard
      · trivial
    · have hnot : ∀ e ∈ net.log ++ [⟨net.peer, message, net.mgr, response, after⟩], e.client = i → e ∈ net.log := by
        intro e he hei
        rcases List.mem_append.mp he with he | he
        · exact he
        · rw [List.mem_singleton.mp he] at hei
          exact absurd hei.symm hi
      unfold Heard at hheard ⊢
      split
      · rename_i hp
        rw [hp] at hheard
        obtain ⟨hto, hnone, hlog⟩ := hheard
        exact ⟨hto, hnone, fun e he hei => hlog e (hnot e he hei) hei⟩
      · rename_i hp
        rw [hp] at hheard
        obtain ⟨hlen, hmessage, hto, hreply⟩ := hheard
        refine ⟨hlen, fun e he hei => hmessage e (hnot e he hei) hei, fun hlate => hto (.inl ?_),
          fun _ _ _ hpeer => absurd hpeer.symm hi, fun _ hne => hadd (hreply.wholly (fun _ _ hr => absurd hr (hmute _ _)) hne)⟩
        exact hlate.resolve_right fun hl => hstage hl.1
      · rename_i hp
        rw [hp] at hheard
        exact hadd hheard
      · trivial
  · have hpeer : ¬ net.accepted ≤ j := by
      subst e
      unfold peer
      omega
    refine Heard.stage (ho e) hstage (fun _ => id) fun hempty => ?_
    rcases hempty with hlate | hnil
    · exact absurd hlate hpeer
    · rw [hnil, List.drop_nil]

/-- The kernel takes some of the reply. -/
theorem Inv.hears_taken {response : V} {taken bytes : Nat} (hs : net.stage = .replying response taken) :
    Hears codec j { net.modifyClient net.peer fun c => { c with toClient := c.toClient ++ (untaken codec response taken).take bytes } with
      stage := .replying response (taken + bytes) } := by
  have hlate : (Stage.replying response (taken + bytes) : Stage V) ≠ .reading := by simp
  obtain ⟨hsize, e, he, hi, -⟩ := h.current response taken hs
  intro i c' hc' hij
  subst hij
  replace hc' := (modifyClient_get _).symm.trans hc'
  split at hc'
  · rename_i hpeer
    subst hpeer
    obtain ⟨c, hc, rfl⟩ := Option.map_eq_some_iff.mp hc'
    have hheard := hj _ c hc rfl
    unfold Heard at hheard ⊢
    dsimp only
    split
    · rename_i hp
      rw [hp] at hheard
      exact absurd hi (hheard.2.2 e he)
    · rename_i hp
      rw [hp] at hheard
      obtain ⟨hlen, hmessage, hto, htold⟩ := hheard
      refine ⟨hlen, hmessage, fun hread => ?_, fun r t hr _ => ?_, fun hnot => absurd rfl (hnot _ _ rfl)⟩
      · refine hto (hread.imp_right fun hr => ?_)
        cases hr.1
      · cases hr
        have htaken := htold.partly response taken hs rfl
        have hboth := @take_untaken V codec response taken 0 bytes (Nat.zero_le _) hsize
        rw [List.drop_zero, List.drop_zero] at hboth
        rw [htaken, hboth]
    · rename_i hp
      rw [hp] at hheard
      exact hheard
    · trivial
  · rename_i hpeer
    exact Heard.stage (hj i c' hc' rfl) hlate
      (fun _ ht => ⟨fun _ _ _ hi => absurd hi hpeer, fun _ hne => ht.wholly (fun _ _ _ => hpeer) hne⟩) fun _ => rfl

/-- The manager has written its reply, all of it. -/
theorem Inv.hears_replied {response : V} {taken : Nat} {fails : Bool} (hs : net.stage = .replying response taken)
    (hc : net.clients[net.peer]? = some c) (hreturns : untaken codec response taken = [] ∨ c.progress.isOpen = false ∨ fails)
    (hwhole : Whole codec j net (.reply fails)) : Hears codec j { net with stage := .hangingUp } := by
  have hlate : (Stage.hangingUp : Stage V) ≠ .reading := by simp
  have hmute : Mute (Stage.hangingUp : Stage V) := fun _ _ => by simp
  intro i c' hc' hij
  subst hij
  refine Heard.stage (hj i c' hc' rfl) hlate (fun hp ht => ⟨fun r t hr => absurd hr (hmute r t), fun _ hne => ?_⟩) fun _ => rfl
  by_cases hi : net.peer = i
  · subst hi
    rw [hc] at hc'
    cases hc'
    obtain ⟨hfails, hfits⟩ := hwhole rfl response taken hs
    have hall : untaken codec response taken = [] := by
      rcases hreturns with hall | hgone | hfailed
      · exact hall
      · rw [hp] at hgone
        cases hgone
      · rw [hfails] at hfailed
        cases hfailed
    obtain ⟨-, e, he, hi, hresponse⟩ := h.current response taken hs
    refine ⟨e, he, hi, response, hresponse, ?_, hfits⟩
    rw [ht.partly response taken hs rfl, List.take_of_length_le (List.drop_eq_nil_iff.mp hall)]
  · exact ht.wholly (fun _ _ _ => hi) hne

theorem Inv.hears_next (hn : Next codec backlog room serve net move net') (hwhole : Whole codec j net move) : Hears codec j net' := by
  have hmute : Mute (Stage.waiting : Stage V) ∧ Mute (Stage.reading : Stage V) ∧ Mute (Stage.hangingUp : Stage V) ∧
      Mute (Stage.dead : Stage V) := by
    refine ⟨?_, ?_, ?_, ?_⟩ <;> exact fun _ _ hs => by cases hs
  obtain ⟨hwaiting, hreading, hhanging, hdead⟩ := hmute
  have hleft : ∀ {stage : Stage V} {bytes : Nat}, net.stage = .reading → stage ≠ .reading → Mute stage →
      Hears codec j { net.modifyClient net.peer fun c => { c with toServer := c.toServer.drop bytes } with stage } := by
    intro stage bytes hs hlate hquiet
    have hmute : Mute net.stage := by rw [hs]; exact hreading
    have hpos := (h.busy (by rw [hs]; simp)).1
    refine of_modifyClient (P := fun i c => i = j → Heard codec net.log net.accepted stage j c)
      (fun i c' hc' e => (hj i c' hc' e).stage hlate (fun _ ht => ht.mute hmute hquiet) fun _ => rfl) fun c' hc' ho e => ?_
    refine (ho e).stage hlate (fun _ => id) fun hempty => ?_
    rcases hempty with hle | hnil
    · subst e
      unfold peer at hle
      omega
    · rw [hnil, List.drop_nil]
  cases moved hn with
  | connect fd request =>
    intro i c hc e
    by_cases hi : i < net.clients.length
    · rw [List.getElem?_append_left hi] at hc
      exact hj i c hc e
    · rw [List.getElem?_append_right (Nat.not_lt.mp hi), List.getElem?_singleton] at hc
      split at hc
      · cases hc
        refine ⟨rfl, rfl, fun e' he' hi' => ?_⟩
        have hbefore := h.before e' he'
        have hle := h.le
        omega
      · cases hc
  | sent hc hp _ hw => exact hj.sent h hc hp hw hwhole
  | notSent | leave =>
    exact of_modifyClient (P := fun i c => i = j → Heard codec net.log net.accepted net.stage j c) hj fun c _ _ _ => .gone rfl
  | received hc hp _ => exact h.hears_received hj hc hp hwhole
  | accepted fd hs hlt =>
    have hmute : Mute net.stage := by rw [hs]; exact hwaiting
    intro i c hc e
    subst e
    have hheard := hj i c hc rfl
    unfold Heard at hheard ⊢
    split
    · rename_i hp
      rw [hp] at hheard
      exact hheard
    · rename_i hp
      rw [hp] at hheard
      obtain ⟨hlen, hmessage, hto, hreply⟩ := hheard
      refine ⟨hlen, hmessage, fun hread => hto (.inl ?_), hreply.mute hmute hreading⟩
      rcases hread with hlt | ⟨-, rfl⟩
      · exact Nat.le_of_succ_le hlt
      · exact le_rfl
    · rename_i hp
      rw [hp] at hheard
      exact hheard
    · trivial
  | notAccepted => exact hj
  | notParsed hs => exact hleft hs (by simp) hhanging
  | died hs => exact hleft hs (by simp) hdead
  | @served c stale bytes message response after hs hc hr hm hv =>
    refine h.hears_served hj hs hc hr hm ?_ hwhole
    cases response with
    | none => exact ⟨by simp, fun r taken hr => by cases hr⟩
    | some response => exact ⟨by simp, fun r taken hr => by cases hr; rfl⟩
  | notRead stale hs =>
    have hmute : Mute net.stage := by rw [hs]; exact hreading
    exact fun i c hc e => (hj i c hc e).stage (by simp) (fun _ ht => ht.mute hmute hhanging) fun _ => rfl
  | taken hs => exact h.hears_taken hj hs
  | replied hs hc hreturns => exact h.hears_replied hj hs hc hreturns hwhole
  | hungUp hs =>
    have hmute : Mute net.stage := by rw [hs]; exact hhanging
    exact of_modifyClient (P := fun i c => i = j → Heard codec net.log net.accepted .waiting j c)
      (fun i c' hc' e => (hj i c' hc' e).stage (by simp) (fun _ ht => ht.mute hmute hwaiting) fun _ => rfl)
      fun c' _ ho e => (ho e).stage (by simp) (fun _ => id) fun _ => rfl
  | event mgr hs => exact hj

end Hears

/-- A client whose messages are read and written as a whole gets the answer to its own request,
    and the manager has run no other handler for it: whatever the other clients do. -/
theorem own_answer {reply : V} (h : Reach Init (Under (Next codec backlog room serve) (Whole codec j)) net)
    (hc : net.clients[j]? = some c) (ha : c.progress = .answered reply) :
    ∃ e ∈ net.log, e.client = j ∧ e.message = c.request ∧ serve c.request e.before = .ok (some reply) e.after ∧
      ∀ e' ∈ net.log, e'.client = j → e' = e := by
  have hboth : Inv codec serve net ∧ Hears codec j net := by
    refine h.invariant (P := fun net => Inv codec serve net ∧ Hears codec j net) (fun net hi => ⟨init_inv hi, ?_⟩)
      fun net move net' hp hn => ⟨hp.1.next hn.1, hp.1.hears_next hp.2 hn.1 hn.2⟩
    obtain ⟨mgr, sockfd, -, rfl⟩ := hi
    exact fun i c hc => by cases hc
  obtain ⟨hinv, hj⟩ := hboth
  have hheard := hj j c hc rfl
  unfold Heard at hheard
  rw [ha] at hheard
  obtain ⟨e, he, hi, hmessage, hresponse⟩ := hheard
  have hran := hinv.ran e he
  rw [hmessage, hresponse] at hran
  refine ⟨e, he, hi, hmessage, hran, fun e' he' hi' => ?_⟩
  by_contra hne
  have hsym : Std.Symm fun a b : Served σ V => a.client ≠ b.client := ⟨fun _ _ => Ne.symm⟩
  have hdiffer := (hinv.ordered.imp fun hlt => Nat.ne_of_lt hlt).forall he' he hne
  exact hdiffer (hi'.trans hi.symm)

def whole (codec : Codec V) (j : Nat) (net : Net σ V) : Move σ V → Bool
  | .send i accepts => i ≠ j || (net.clients[j]?).all fun c =>
    (accepts.any fun n => (codec.dump c.request ++ [0]).length ≤ n) && (codec.dump c.request).length ≤ ipcMaxMsglen
  | .read _ bytes => net.peer ≠ j || (net.clients[j]?).all fun c => bytes.all (· = min c.toServer.length ipcMaxMsglen)
  | .reply fails => net.peer ≠ j || match net.stage with
    | .replying response _ => !fails && (codec.dump response).length ≤ ipcMaxMsglen
    | _ => true
  | .receive i _ bytes => i ≠ j || ((net.clients[j]?).all fun c => c.toClient ≠ [] ∧ bytes = min c.toClient.length ipcMaxMsglen) &&
    (net.peer ≠ j || match net.stage with
      | .replying .. => false
      | _ => true)
  | .connect .. | .leave _ | .accept _ | .take _ | .hangUp | .event _ => true

theorem of_whole (h : whole codec j net move) : Whole codec j net move := by
  cases move with
  | send i accepts =>
    intro e c hc
    simp only [whole, e, hc, ne_eq, not_true_eq_false, decide_false, Bool.false_or, Option.all_some, Bool.and_eq_true,
      decide_eq_true_eq] at h
    obtain ⟨n, hn, hle⟩ := (Option.any_eq_true _ _).mp h.1
    exact ⟨⟨n, hn, of_decide_eq_true hle⟩, h.2⟩
  | read stale bytes =>
    intro e c hc
    simp only [whole, e, hc, ne_eq, not_true_eq_false, decide_false, Bool.false_or, Option.all_some] at h
    cases bytes with
    | none => exact .inl rfl
    | some bytes => exact .inr (congrArg some (of_decide_eq_true h))
  | reply fails =>
    intro e response taken hs
    simp only [whole, e, hs, ne_eq, not_true_eq_false, decide_false, Bool.false_or, Bool.and_eq_true, Bool.not_eq_true',
      decide_eq_true_eq] at h
    exact h
  | receive i stale bytes =>
    intro e c hc
    simp only [whole, e, hc, ne_eq, not_true_eq_false, decide_false, Bool.false_or, Option.all_some, Bool.and_eq_true,
      decide_eq_true_eq] at h
    refine ⟨h.1.1, h.1.2, fun hpeer response taken hs => ?_⟩
    simp [hpeer, hs] at h
  | connect | leave | accept | take | hangUp | event => trivial

/-- The second client is served after the first one has sent half a message. -/
theorem own_answer_second : ∃ (net : Net Nat Nat) (c : Client Nat), net.clients[1]? = some c ∧ c.progress = .answered 8 ∧
    ∃ e ∈ net.log, e.client = 1 ∧ e.message = c.request ∧ sums c.request e.before = .ok (some 8) e.after ∧
      ∀ e' ∈ net.log, e'.client = 1 → e' = e := by
  obtain ⟨net, hreach, hp⟩ := reach_of_play (whole Codec.letters 1) (fun _ _ => of_whole)
    [.connect 5 7, .connect 6 8, .send 1 (some 64), .accept (some 4), .send 0 (some 64), .read Channel.zeros (some 3), .hangUp,
      .accept (some 4), .read Channel.zeros (some 11), .take 10, .take 1, .reply false, .receive 1 Channel.zeros 11, .hangUp]
    (fun net => (net.clients[1]?).any fun c => match c.progress with
      | .answered reply => reply = 8
      | _ => false) (by decide +kernel)
  obtain ⟨c, hc, hanswer⟩ := (Option.any_eq_true _ _).mp hp
  have ha : c.progress = .answered 8 := by
    cases hprogress : c.progress with
    | answered reply => rw [hprogress] at hanswer; rw [of_decide_eq_true hanswer]
    | connected | sent | gone => rw [hprogress] at hanswer; cases hanswer
  exact ⟨net, c, hc, ha, own_answer hreach hc ha⟩

/-! ## What holds the manager up -/

/-- The manager reads from the client `i`, which is there and has written nothing. -/
def Awaits (net : Net σ V) (i : Nat) : Prop :=
  net.stage = .reading ∧ net.peer = i ∧ ∃ c, net.clients[i]? = some c ∧ c.progress.isOpen ∧ c.toServer = []

/-- The client neither writes nor goes, and its connection does not fail. -/
def Stays (i : Nat) (_ : Net σ V) : Move σ V → Prop
  | .send k _ | .leave k => k ≠ i
  | .read _ bytes => bytes ≠ none
  | .connect .. | .receive .. | .accept _ | .take _ | .reply _ | .hangUp | .event _ => True

theorem Awaits.modify {k : Nat} {f : Client V → Client V} (h : Awaits net i) (hne : k ≠ i) : Awaits (net.modifyClient k f) i := by
  obtain ⟨hs, hpeer, c, hc, hopen, hempty⟩ := h
  refine ⟨hs, hpeer, c, ?_, hopen, hempty⟩
  rw [modifyClient_get, if_neg hne]
  exact hc

theorem Awaits.next (hinv : Inv codec serve net) (h : Awaits net i) (hn : Next codec backlog room serve net move net')
    (hstays : Stays i net move) :
    Awaits net' i ∧ net'.mgr = net.mgr ∧ net'.log = net.log ∧ net'.accepted = net.accepted := by
  have h' := h
  obtain ⟨hs, hpeer, c, hc, hopen, hempty⟩ := h'
  have hother : ∀ {stage : Stage V}, net.stage = stage → stage = .reading := fun e => e.symm.trans hs
  cases moved hn with
  | connect fd request =>
    refine ⟨⟨hs, hpeer, c, ?_, hopen, hempty⟩, rfl, rfl, rfl⟩
    rw [List.getElem?_append_left (List.getElem?_eq_some_iff.mp hc).1]
    exact hc
  | sent | notSent | leave => exact ⟨h.modify hstays, rfl, rfl, rfl⟩
  | @received k c' stale bytes hc' hp hr =>
    refine ⟨h.modify fun e => ?_, rfl, rfl, rfl⟩
    subst e
    have ha := hinv.clients _ c' hc'
    have hsilent : c'.toClient = [] := by
      subst hpeer
      exact hinv.silent hs hc'
    have hthere : c'.hungUp = false :=
      Bool.eq_false_of_not_eq_true fun hu => ((ha.hung hu).2.resolve_left (by rw [hs]; simp)) hpeer.symm
    rw [readable, if_pos hsilent, hthere, hs] at hr
    cases hr
  | accepted _ hw | notAccepted hw | taken hw | replied hw | hungUp hw | event _ hw => cases hother hw
  | notRead => exact absurd rfl hstays
  | notParsed _ hc' hr | served _ hc' hr | died _ hc' hr =>
    subst hpeer
    rw [hc] at hc'
    cases hc'
    rw [readable, if_pos hempty, hopen] at hr
    cases hr

/-- A client that connects and says nothing stops the manager: until it writes or goes, nobody
    else is served and nothing else that happens is dealt with. -/
theorem silent_client_blocks (h : Reach Init (Next codec backlog room serve) net) (hw : Awaits net i)
    (hl : Later (Under (Next codec backlog room serve) (Stays i)) net net') :
    Awaits net' i ∧ net'.mgr = net.mgr ∧ net'.log = net.log ∧ net'.accepted = net.accepted := by
  have hboth : Inv codec serve net' ∧ Awaits net' i ∧ net'.mgr = net.mgr ∧ net'.log = net.log ∧ net'.accepted = net.accepted := by
    induction hl with
    | refl => exact ⟨reach_inv h, hw, rfl, rfl, rfl⟩
    | tail _ hn ih =>
      obtain ⟨move, hn, hstays⟩ := hn
      obtain ⟨hinv, hw, hmgr, hlog, haccepted⟩ := ih
      obtain ⟨hw', hmgr', hlog', haccepted'⟩ := hw.next hinv hn hstays
      exact ⟨hinv.next hn, hw', hmgr'.trans hmgr, hlog'.trans hlog, haccepted'.trans haccepted⟩
  exact hboth.2

def awaits (net : Net σ V) (i : Nat) : Bool :=
  (match net.stage with
    | .reading => true
    | _ => false) && net.peer = i && (net.clients[i]?).any fun c => c.progress.isOpen && c.toServer.isEmpty

theorem of_awaits (h : awaits net i) : Awaits net i := by
  unfold awaits at h
  rw [Bool.and_eq_true, Bool.and_eq_true] at h
  obtain ⟨⟨hs, hpeer⟩, hclient⟩ := h
  obtain ⟨c, hc, hsilent⟩ := (Option.any_eq_true _ _).mp hclient
  rw [Bool.and_eq_true] at hsilent
  refine ⟨?_, of_decide_eq_true hpeer, c, hc, hsilent.1, List.isEmpty_iff.mp hsilent.2⟩
  cases hstage : net.stage with
  | reading => rfl
  | waiting | replying | hangingUp | dead => rw [hstage] at hs; cases hs

/-- A client has connected and nothing more; the one behind it has sent its message. -/
theorem silent_client_blocks_queue : ∃ net net' : Net Nat Nat, net'.clients.length = 3 ∧
    Awaits net' 0 ∧ net'.mgr = net.mgr ∧ net'.log = net.log ∧ net'.accepted = net.accepted := by
  obtain ⟨net, hreach, hp⟩ := reach_of_play (C := fun _ _ => True) (fun _ _ => true) (fun _ _ _ => trivial)
    [.connect 5 7, .connect 6 8, .accept (some 4), .send 1 (some 64)]
    (fun net => awaits net 0 && (net.step Codec.letters 1024 64 sums (.connect 7 9)).any fun net' => net'.clients.length = 3)
    (by decide +kernel)
  rw [Bool.and_eq_true] at hp
  obtain ⟨net', hn, hlen⟩ := (Option.any_eq_true _ _).mp hp.2
  have hstep : Under (Next Codec.letters 1024 64 sums) (Stays 0) net (.connect 7 9) net' := ⟨hn, trivial⟩
  exact ⟨net, net', of_decide_eq_true hlen, silent_client_blocks hreach.of_under (of_awaits hp.1) (.single ⟨_, hstep⟩)⟩

/-- The manager writes to the client `i`, which is there and does not read, and the kernel takes
    no more. -/
def Deaf (codec : Codec V) (room : Nat) (net : Net σ V) (i : Nat) : Prop :=
  ∃ response taken, net.stage = .replying response taken ∧ untaken codec response taken ≠ [] ∧ net.peer = i ∧
    ∃ c, net.clients[i]? = some c ∧ c.progress.isOpen ∧ room ≤ c.toClient.length

/-- The client does nothing, and its connection does not fail. -/
def Idle (i : Nat) (_ : Net σ V) : Move σ V → Prop
  | .send k _ | .receive k .. | .leave k => k ≠ i
  | .reply fails => fails = false
  | .connect .. | .accept _ | .read .. | .take _ | .hangUp | .event _ => True

theorem Deaf.modify {k : Nat} {f : Client V → Client V} (h : Deaf codec room net i) (hne : k ≠ i) :
    Deaf codec room (net.modifyClient k f) i := by
  obtain ⟨response, taken, hs, hmore, hpeer, c, hc, hopen, hfull⟩ := h
  refine ⟨response, taken, hs, hmore, hpeer, c, ?_, hopen, hfull⟩
  rw [modifyClient_get, if_neg hne]
  exact hc

theorem Deaf.next (h : Deaf codec room net i) (hn : Next codec backlog room serve net move net') (hidle : Idle i net move) :
    Deaf codec room net' i ∧ net'.mgr = net.mgr ∧ net'.log = net.log ∧ net'.accepted = net.accepted := by
  have h' := h
  obtain ⟨response, taken, hs, hmore, hpeer, c, hc, hopen, hfull⟩ := h'
  have hother : ∀ {stage : Stage V}, net.stage = stage → stage = .replying response taken := fun e => e.symm.trans hs
  cases moved hn with
  | connect fd request =>
    refine ⟨⟨response, taken, hs, hmore, hpeer, c, ?_, hopen, hfull⟩, rfl, rfl, rfl⟩
    rw [List.getElem?_append_left (List.getElem?_eq_some_iff.mp hc).1]
    exact hc
  | sent | notSent | received | leave => exact ⟨h.modify hidle, rfl, rfl, rfl⟩
  | accepted _ hw | notAccepted hw | notParsed hw | served hw | died hw | notRead _ hw | hungUp hw | event _ hw =>
    cases hother hw
  | taken hw hc' _ hpos _ hroom =>
    cases hother hw
    subst hpeer
    rw [hc] at hc'
    cases hc'
    omega
  | replied hw hc' hreturns =>
    cases hother hw
    subst hpeer
    rw [hc] at hc'
    cases hc'
    rcases hreturns with hall | hgone | hfails
    · exact absurd hall hmore
    · rw [hopen] at hgone
      cases hgone
    · cases hidle.symm.trans hfails

/-- So does a client that does not read its reply, when the kernel has no room for all of it. -/
theorem deaf_client_blocks (hd : Deaf codec room net i) (hl : Later (Under (Next codec backlog room serve) (Idle i)) net net') :
    Deaf codec room net' i ∧ net'.mgr = net.mgr ∧ net'.log = net.log ∧ net'.accepted = net.accepted := by
  induction hl with
  | refl => exact ⟨hd, rfl, rfl, rfl⟩
  | tail _ hn ih =>
    obtain ⟨move, hn, hidle⟩ := hn
    obtain ⟨hd, hmgr, hlog, haccepted⟩ := ih
    obtain ⟨hd', hmgr', hlog', haccepted'⟩ := hd.next hn hidle
    exact ⟨hd', hmgr'.trans hmgr, hlog'.trans hlog, haccepted'.trans haccepted⟩

def deaf (codec : Codec V) (room : Nat) (net : Net σ V) (i : Nat) : Bool :=
  (match net.stage with
    | .replying response taken => !(untaken codec response taken).isEmpty
    | _ => false) && net.peer = i && (net.clients[i]?).any fun c => c.progress.isOpen && room ≤ c.toClient.length

theorem of_deaf (h : deaf codec room net i) : Deaf codec room net i := by
  unfold deaf at h
  rw [Bool.and_eq_true, Bool.and_eq_true] at h
  obtain ⟨⟨hs, hpeer⟩, hclient⟩ := h
  obtain ⟨c, hc, hfull⟩ := (Option.any_eq_true _ _).mp hclient
  rw [Bool.and_eq_true] at hfull
  cases hstage : net.stage with
  | replying response taken =>
    rw [hstage, Bool.not_eq_true'] at hs
    have hmore : untaken codec response taken ≠ [] := by
      intro hnil
      rw [hnil] at hs
      cases hs
    exact ⟨response, taken, hstage, hmore, of_decide_eq_true hpeer, c, hc, hfull.1, of_decide_eq_true hfull.2⟩
  | waiting | reading | hangingUp | dead => rw [hstage] at hs; cases hs

/-- There is room for four bytes of the reply. -/
theorem deaf_client_blocks_queue : ∃ net net' : Net Nat Nat, net'.clients.length = 3 ∧
    Deaf Codec.letters 4 net' 0 ∧ net'.mgr = net.mgr ∧ net'.log = net.log ∧ net'.accepted = net.accepted := by
  let next := step Codec.letters 1024 4 sums
  have hp : (play next listening [.connect 5 7, .connect 6 8, .send 0 (some 64), .send 1 (some 64), .accept (some 4),
      .read Channel.zeros (some 10), .take 4]).any fun net =>
        deaf Codec.letters 4 net 0 && (next net (.connect 7 9)).any fun net' => net'.clients.length = 3 := by decide +kernel
  obtain ⟨net, -, hp⟩ := (Option.any_eq_true _ _).mp hp
  rw [Bool.and_eq_true] at hp
  obtain ⟨net', hn, hlen⟩ := (Option.any_eq_true _ _).mp hp.2
  have hstep : Under (Next Codec.letters 1024 4 sums) (Idle 0) net (.connect 7 9) net' := ⟨hn, trivial⟩
  exact ⟨net, net', of_decide_eq_true hlen, deaf_client_blocks (of_deaf hp.1) (.single ⟨_, hstep⟩)⟩

/-- The moves of the manager, when its calls do not fail. -/
def Own (_ : Net σ V) : Move σ V → Prop
  | .accept fd => fd.isSome
  | .read _ bytes => bytes.isSome
  | .take _ | .hangUp => True
  | .reply fails => fails = false
  | .connect .. | .send .. | .receive .. | .leave _ | .event _ => False

/-- What there is room for of a reply to the peer. -/
def space (room : Nat) (net : Net σ V) : Nat :=
  match net.clients[net.peer]? with
  | some c => room - c.toClient.length
  | none => 0

theorem space_le (room : Nat) (net : Net σ V) : net.space room ≤ room := by
  unfold space
  split
  · exact Nat.sub_le ..
  · exact Nat.zero_le _

/-- What the manager has still to do for its peer. -/
def work (room : Nat) (net : Net σ V) : Nat :=
  match net.stage with
  | .waiting | .dead => 0
  | .hangingUp => 1
  | .replying .. => net.space room + 2
  | .reading => room + 3

def rank (room : Nat) (net : Net σ V) : Nat := (room + 4) * (net.clients.length - net.accepted) + net.work room

theorem rank_lt (hclients : net'.clients.length = net.clients.length) (haccepted : net'.accepted = net.accepted)
    (hw : net'.work room < net.work room) : net'.rank room < net.rank room := by
  unfold rank
  rw [hclients, haccepted]
  omega

theorem rank_next (hn : Next codec backlog room serve net move net') (ho : Own net move) : net'.rank room < net.rank room := by
  cases moved hn with
  | connect | sent | notSent | received | leave | event => exact ho.elim
  | accepted fd hs hlt =>
    have hone : net.clients.length - net.accepted = net.clients.length - (net.accepted + 1) + 1 := by omega
    unfold rank
    rw [hone, Nat.mul_succ]
    dsimp only [work]
    omega
  | notAccepted | notRead => cases ho
  | notParsed hs | died hs =>
    refine rank_lt (modifyClient_length _) rfl ?_
    rw [work, work, hs]
    dsimp only
    omega
  | @served _ _ bytes _ response _ hs =>
    refine rank_lt (modifyClient_length _) rfl ?_
    rw [work, work, hs]
    cases response with
    | none =>
      show 1 < room + 3
      omega
    | some response => exact Nat.add_lt_add_of_le_of_lt (space_le ..) (by decide)
  | @taken c response taken bytes hs hc hopen hpos hbytes hroom =>
    refine rank_lt (modifyClient_length _) rfl ?_
    have hbefore : net.space room = room - c.toClient.length := by
      rw [space, hc]
    have hafter : (net.modifyClient net.peer fun c => { c with
        toClient := c.toClient ++ (untaken codec response taken).take bytes }).space room = room - (c.toClient.length + bytes) := by
      rw [space]
      simp only [modifyClient, peer] at hc ⊢
      rw [List.getElem?_modify_eq, hc]
      simp only [Option.map_eq_map, Option.map_some, List.length_append, List.length_take, Nat.min_eq_left hbytes]
    have hless : room - (c.toClient.length + bytes) < room - c.toClient.length := by omega
    rw [← hbefore, ← hafter] at hless
    rw [work, work, hs]
    exact Nat.add_lt_add_right hless 2
  | replied hs =>
    refine rank_lt rfl rfl ?_
    rw [work, work, hs]
    dsimp only
    omega
  | hungUp hs =>
    refine rank_lt (modifyClient_length _) rfl ?_
    rw [work, work, hs]
    dsimp only
    omega

section Stuck

variable (h : Inv codec serve net)

include h

theorem Inv.peer_get (hs : net.stage ≠ .waiting) : ∃ c, net.clients[net.peer]? = some c :=
  ⟨_, List.getElem?_eq_getElem (h.peer_lt hs)⟩

/-- The manager can read from its peer if and only if it does not await it. -/
theorem Inv.stuck_reading (hs : net.stage = .reading) :
    (¬ ∃ move net', Under (Next codec backlog room serve) Own net move net') ↔ Awaits net net.peer := by
  obtain ⟨c, hc⟩ := h.peer_get (by rw [hs]; simp)
  have hother : ∀ {stage : Stage V}, net.stage = stage → stage = .reading := fun e => e.symm.trans hs
  by_cases hw : c.progress.isOpen ∧ c.toServer = []
  · refine iff_of_true (fun hmove => ?_) ⟨hs, rfl, c, hc, hw.1, hw.2⟩
    obtain ⟨move, net', hn, ho⟩ := hmove
    cases moved hn with
    | connect | sent | notSent | received | leave | event => exact ho
    | notRead => cases ho
    | accepted _ hs' | notAccepted hs' | taken hs' | replied hs' | hungUp hs' => cases hother hs'
    | notParsed _ hc' hr | served _ hc' hr | died _ hc' hr =>
      rw [hc] at hc'
      cases hc'
      rw [readable, if_pos hw.2, hw.1] at hr
      cases hr
  · refine iff_of_false (fun hno => ?_) fun hawaits => ?_
    · obtain ⟨bytes, hr⟩ : ∃ bytes, readable c.toServer (!c.progress.isOpen) bytes = true := by
        by_cases hempty : c.toServer = []
        · have hgone : c.progress.isOpen = false := Bool.eq_false_of_not_eq_true fun hopen => hw ⟨hopen, hempty⟩
          exact ⟨0, by simp [readable, hempty, hgone]⟩
        · have hpos := List.length_pos_of_ne_nil hempty
          refine ⟨1, ?_⟩
          simp [readable, hempty, ipcMaxMsglen]
          omega
      obtain ⟨net', hstep⟩ : ∃ net', net.reads codec serve c Channel.zeros bytes = some net' := by
        unfold reads
        dsimp only
        split
        · exact ⟨_, rfl⟩
        · split <;> exact ⟨_, rfl⟩
      refine hno ⟨.read Channel.zeros (some bytes), net', ?_, rfl⟩
      simp [Next, step, hs, hc, hr, hstep]
    · obtain ⟨-, -, c', hc', hopen, hempty⟩ := hawaits
      rw [hc] at hc'
      cases hc'
      exact hw ⟨hopen, hempty⟩

/-- The manager can go on with its reply if and only if its peer is not deaf to it. -/
theorem Inv.stuck_replying {response : V} {taken : Nat} (hs : net.stage = .replying response taken) :
    (¬ ∃ move net', Under (Next codec backlog room serve) Own net move net') ↔ Deaf codec room net net.peer := by
  obtain ⟨c, hc⟩ := h.peer_get (by rw [hs]; simp)
  have hother : ∀ {stage : Stage V}, net.stage = stage → stage = .replying response taken := fun e => e.symm.trans hs
  by_cases hd : untaken codec response taken ≠ [] ∧ c.progress.isOpen ∧ room ≤ c.toClient.length
  · have hdeaf : Deaf codec room net net.peer := ⟨response, taken, hs, hd.1, rfl, c, hc, hd.2⟩
    refine iff_of_true (fun hmove => ?_) hdeaf
    obtain ⟨move, net', hn, ho⟩ := hmove
    cases moved hn with
    | connect | sent | notSent | received | leave | event => exact ho
    | notRead _ hs' | accepted _ hs' | notAccepted hs' | notParsed hs' | served hs' | died hs' | hungUp hs' => cases hother hs'
    | taken hs' hc' _ hpos _ hroom =>
      rw [hc] at hc'
      cases hc'
      have hfull := hd.2.2
      omega
    | replied hs' hc' hreturns =>
      cases hother hs'
      rw [hc] at hc'
      cases hc'
      rcases hreturns with hall | hgone | hfails
      · exact hd.1 hall
      · rw [hd.2.1] at hgone
        cases hgone
      · cases ho.symm.trans hfails
  · refine iff_of_false (fun hno => ?_) fun hdeaf => ?_
    · by_cases hreturns : untaken codec response taken = [] ∨ c.progress.isOpen = false
      · obtain ⟨net', hstep⟩ : ∃ net', net.replies codec c response taken false = some net' := by
          obtain ⟨told, toClient, hw⟩ : ∃ told toClient, net.chan.respond codec response (if taken = 0 then none else some taken) [] =
              .ok told toClient := respond_ends ..
          rw [replies, if_pos (hreturns.imp_right .inl), hw]
          exact ⟨_, rfl⟩
        refine hno ⟨.reply false, net', ?_, rfl⟩
        simp [Next, step, hs, hc, hstep]
      · obtain ⟨hmore, hgone⟩ := not_or.mp hreturns
        have hopen := Bool.eq_true_of_not_eq_false hgone
        have hpos := List.length_pos_of_ne_nil hmore
        have hroom : c.toClient.length + 1 ≤ room := Nat.lt_of_not_le fun hfull => hd ⟨hmore, hopen, hfull⟩
        obtain ⟨net', hstep⟩ : ∃ net', net.takes codec room c response taken 1 = some net' :=
          ⟨_, if_pos ⟨hopen, Nat.one_pos, hpos, hroom⟩⟩
        refine hno ⟨.take 1, net', ?_, trivial⟩
        simp [Next, step, hs, hc, hstep]
    · obtain ⟨r, t, hs', hmore, -, c', hc', hopen, hfull⟩ := hdeaf
      cases hs'.symm.trans hs
      rw [hc] at hc'
      cases hc'
      exact hd ⟨hmore, hopen, hfull⟩

/-- The manager can make no move of its own if and only if everyone has been served, a handler
    has crashed, the client it reads from is there and has written nothing, or the one it
    writes to is there and does not read. -/
theorem Inv.stuck_iff : (¬ ∃ move net', Under (Next codec backlog room serve) Own net move net') ↔
    (net.stage = .waiting ∧ net.accepted = net.clients.length) ∨ net.stage = .dead ∨
      Awaits net net.peer ∨ Deaf codec room net net.peer := by
  cases hs : net.stage with
  | reading =>
    rw [h.stuck_reading hs]
    simp [Deaf, hs]
  | replying response taken =>
    rw [h.stuck_replying hs]
    simp [Awaits, hs]
  | waiting =>
    have hle := h.le
    have hrest : ¬ (Awaits net net.peer ∨ Deaf codec room net net.peer) := by simp [Awaits, Deaf, hs]
    by_cases hlt : net.accepted < net.clients.length
    · obtain ⟨net', hstep⟩ : ∃ net', Next codec backlog room serve net (.accept (some 4)) net' := by
        unfold Next step
        rw [hs]
        exact ⟨_, if_pos hlt⟩
      refine iff_of_false (fun hno => hno ⟨_, net', hstep, rfl⟩) fun hor => ?_
      rcases hor with ⟨-, he⟩ | hdead | hor
      · omega
      · cases hdead
      · exact hrest hor
    · refine iff_of_true (fun hmove => ?_) (.inl ⟨rfl, by omega⟩)
      obtain ⟨move, net', hn, ho⟩ := hmove
      cases moved hn with
      | connect | sent | notSent | received | leave | event => exact ho
      | accepted _ _ hlt' => exact hlt hlt'
      | notAccepted | notRead => cases ho
      | notParsed hs' | served hs' | died hs' | taken hs' | replied hs' | hungUp hs' => cases hs.symm.trans hs'
  | hangingUp =>
    obtain ⟨net', hstep⟩ : ∃ net', Next codec backlog room serve net .hangUp net' := by
      unfold Next step
      rw [hs]
      exact ⟨_, rfl⟩
    refine iff_of_false (fun hno => hno ⟨_, net', hstep, trivial⟩) fun hor => ?_
    simp [Awaits, Deaf, hs] at hor
  | dead =>
    refine iff_of_true (fun hmove => ?_) (.inr (.inl rfl))
    obtain ⟨move, net', hn, ho⟩ := hmove
    cases moved hn with
    | connect | sent | notSent | received | leave | event => exact ho
    | notRead _ hs' | accepted _ hs' | notAccepted hs' | notParsed hs' | served hs' | died hs' | taken hs' | replied hs' | hungUp hs' =>
      cases hs.symm.trans hs'

/-- A client is deaf to replies for which there is no room. -/
theorem Inv.deaf_room {response : V} {taken : Nat} (hd : Deaf codec room net i) (hs : net.stage = .replying response taken) :
    room < (codec.dump response ++ [0]).length := by
  obtain ⟨r, t, hs', hmore, rfl, c, hc, -, hfull⟩ := hd
  cases hs'.symm.trans hs
  obtain ⟨read, -, hto⟩ := (h.clients _ c hc).partly response taken hs rfl
  have hless : taken < (codec.dump response ++ [0]).length := Nat.lt_of_not_le fun hle => hmore (List.drop_of_length_le hle)
  rw [hto, List.length_drop, List.length_take] at hfull
  omega

end Stuck

/-- Those who have not been read from yet have written something, or are gone. -/
def NoneSilent (net : Net σ V) : Prop :=
  ∀ i c, net.clients[i]? = some c → net.accepted ≤ i ∨ net.stage = .reading ∧ net.peer = i → ¬ (c.progress.isOpen ∧ c.toServer = [])

/-- The manager is done with its peer, or is about to read from it. -/
theorem NoneSilent.own (h : NoneSilent net) (hinv : Inv codec serve net) (hn : Next codec backlog room serve net move net')
    (ho : Own net move) : NoneSilent net' := by
  have hpeer : ∀ {f : Client V → Client V} {stage : Stage V} {n : Net σ V}, net.stage ≠ .waiting → stage ≠ .reading →
      n.clients = (net.modifyClient net.peer f).clients → n.accepted = net.accepted → n.stage = stage → NoneSilent n := by
    intro f stage n hs hstage hclients haccepted hn i c hc hi
    have hlate : net.accepted ≤ i := by
      rcases hi with hle | ⟨hr, -⟩
      · rwa [haccepted] at hle
      · exact absurd (hn.symm.trans hr) hstage
    have hpos := (hinv.busy hs).1
    rw [hclients, modifyClient_get, if_neg] at hc
    · exact h i c hc (.inl hlate)
    · unfold peer
      omega
  cases moved hn with
  | connect | sent | notSent | received | leave | event => exact ho.elim
  | accepted fd hs hlt =>
    intro i c hc hi
    refine h i c hc (.inl ?_)
    rcases hi with hle | ⟨-, rfl⟩
    · exact Nat.le_of_succ_le hle
    · exact le_rfl
  | notAccepted | notRead => cases ho
  | notParsed hs | died hs | taken hs => exact hpeer (by rw [hs]; simp) (by simp) rfl rfl rfl
  | @served _ _ _ _ response _ hs => exact hpeer (by rw [hs]; simp) (by cases response <;> simp) rfl rfl rfl
  | replied hs =>
    intro i c hc hi
    rcases hi with hle | ⟨hr, -⟩
    · exact h i c hc (.inl hle)
    · cases hr
  | hungUp hs => exact hpeer (by rw [hs]; simp) (by simp) rfl rfl rfl

/-- When nobody is silent, the manager comes to the end of the queue by its own moves, however
    they turn out and in a number of moves that is bounded, unless a handler crashes or a client
    does not read a reply for which there is no room. -/
theorem queue_drained (h : Reach Init (Next codec backlog room serve) net) (hsilent : NoneSilent net) {n : Nat}
    (hsteps : Steps (Under (Next codec backlog room serve) Own) n net net') :
    n ≤ (room + 4) * (net.clients.length - net.accepted) + room + 3 ∧
      ((¬ ∃ move net'', Under (Next codec backlog room serve) Own net' move net'') →
        (net'.stage = .waiting ∧ net'.accepted = net'.clients.length) ∨ net'.stage = .dead ∨
          Deaf codec room net' net'.peer ∧
            ∀ response taken, net'.stage = .replying response taken → room < (codec.dump response ++ [0]).length) := by
  constructor
  · have hrank : n + net'.rank room ≤ net.rank room := hsteps.length_le fun _ _ _ hn => rank_next hn.1 hn.2
    have hle : net.work room ≤ room + 3 := by
      unfold work
      have hspace := space_le room net
      cases net.stage <;> dsimp only <;> omega
    unfold rank at hrank
    omega
  · have hkept : Inv codec serve net' ∧ NoneSilent net' := by
      induction hsteps with
      | refl s => exact ⟨reach_inv h, hsilent⟩
      | tail move _ hn ih =>
        obtain ⟨hinv, hs⟩ := ih h hsilent
        exact ⟨hinv.next hn.1, hs.own hinv hn.1 hn.2⟩
    obtain ⟨hinv, hnone⟩ := hkept
    intro hstuck
    rcases hinv.stuck_iff.mp hstuck with hdone | hdead | ⟨hs, -, c, hc, hopen⟩ | hdeaf
    · exact .inl hdone
    · exact .inr (.inl hdead)
    · exact absurd hopen (hnone _ c hc (.inr ⟨hs, rfl⟩))
    · exact .inr (.inr ⟨hdeaf, fun _ _ hs => hinv.deaf_room hdeaf hs⟩)

def owns : Move σ V → Bool
  | .accept fd => fd.isSome
  | .read _ bytes => bytes.isSome
  | .take _ | .hangUp => true
  | .reply fails => !fails
  | .connect .. | .send .. | .receive .. | .leave _ | .event _ => false

theorem of_owns (h : owns move) : Own net move := by
  cases move with
  | accept | read => exact h
  | take | hangUp => trivial
  | reply fails => exact (Bool.not_eq_true' fails).mp h
  | connect | send | receive | leave | event => cases h

theorem noneSilent_of_all (h : net.clients.all fun c => !(c.progress.isOpen && c.toServer.isEmpty)) : NoneSilent net := by
  intro i c hc _ hsilent
  have hnot := List.all_eq_true.mp h c (List.mem_of_getElem? hc)
  rw [hsilent.1, hsilent.2] at hnot
  cases hnot

/-- The first client is gone, and the second has sent its message. -/
theorem queue_drained_two : ∃ net net' : Net Nat Nat, net'.log.map (·.response) = [some 8] ∧
    9 ≤ (64 + 4) * (net.clients.length - net.accepted) + 64 + 3 ∧
      ((¬ ∃ move net'', Under (Next Codec.letters 1024 64 sums) Own net' move net'') →
        (net'.stage = .waiting ∧ net'.accepted = net'.clients.length) ∨ net'.stage = .dead ∨
          Deaf Codec.letters 64 net' net'.peer ∧
            ∀ response taken, net'.stage = .replying response taken → 64 < (Codec.letters.dump response ++ [0]).length) := by
  obtain ⟨net, hreach, hp⟩ := reach_of_play (C := fun _ _ => True) (fun _ _ => true) (fun _ _ _ => trivial)
    [.connect 5 7, .connect 6 8, .leave 0, .send 1 (some 64)]
    (fun net => (net.clients.all fun c => !(c.progress.isOpen && c.toServer.isEmpty)) &&
      (play (fun net move => if owns move then net.step Codec.letters 1024 64 sums move else none) net
        [.accept (some 4), .read Channel.zeros (some 0), .hangUp, .accept (some 4), .read Channel.zeros (some 11),
          .take 5, .take 6, .reply false, .hangUp]).any fun net' => net'.log.map (·.response) = [some 8])
    (by decide +kernel)
  rw [Bool.and_eq_true] at hp
  obtain ⟨net', hsteps, hlog⟩ := steps_of_any hp.2
  have hown : Steps (Under (Next Codec.letters 1024 64 sums) Own) 9 net net' := by
    refine hsteps.mono fun n move n' hn => ?_
    split at hn
    · rename_i ho
      exact ⟨hn, of_owns ho⟩
    · cases hn
  exact ⟨net, net', of_decide_eq_true hlog, queue_drained hreach.of_under (noneSilent_of_all hp.1) hown⟩

end Net

end Sessions

end Relaunchd
