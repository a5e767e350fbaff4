/-
  Relaunchd.Properties.Rendezvous — which launchd a client reaches.

  A launchd that has lost its name goes on listening, and nobody reaches it any more
  (`displaced_unreached`). However many are started at once, when all of them are through a
  client reaches one (`started_one_reached`). All of this is about names that fit into
  `sun_path`; from 108 bytes on a name that is taken is never given up (`start_listens_iff`,
  `taken_for_good`).
-/

import Relaunchd.Rendezvous

namespace Relaunchd

open Codec Transition

/-! ## Names -/

/-- The path is the name that is bound, whatever the last byte of the array is. -/
def Fits (path : Bytes) : Prop := path.length < sunPathSize - 1 ∧ 0 ∉ path

theorem nameIn_of_fits {path : Bytes} (h : Fits path) (last : UInt8) : nameIn path last = path := by
  obtain ⟨hlen, hnul⟩ := h
  have htake : (untilNul path).take (sunPathSize - 1) = path := by
    rw [untilNul_of_noNul hnul, List.take_of_length_le (by omega)]
  obtain ⟨n, hn⟩ : ∃ n, sunPathSize - 1 - path.length = n + 1 := ⟨sunPathSize - 1 - path.length - 1, by omega⟩
  rw [nameIn, sunPath, htake, hn, List.replicate_succ, List.append_assoc, List.cons_append,
    untilNul_append_nul _ hnul]

/-- What follows a NUL is not copied. -/
theorem nameIn_untilNul (path : Bytes) (last : UInt8) : nameIn (untilNul path) last = nameIn path last := by
  rw [nameIn, nameIn, sunPath, sunPath, untilNul_of_noNul not_mem_untilNul]

/-- The array has no room for the whole path. -/
theorem nameIn_ne {path : Bytes} (h : sunPathSize < path.length) (last : UInt8) : nameIn path last ≠ path := by
  intro he
  have hle : (nameIn path last).length ≤ (sunPath path last).length := length_untilNul_le _
  have hsize : (sunPath path last).length ≤ sunPathSize := by
    have htake : ((untilNul path).take (sunPathSize - 1)).length ≤ sunPathSize - 1 := List.length_take_le ..
    have hpos : 0 < sunPathSize := by decide
    simp only [sunPath, List.length_append, List.length_replicate, List.length_cons, List.length_nil]
    omega
  rw [he] at hle
  omega

namespace Rendezvous

variable {writable : Bytes → Bool} {host host' : Host} {i : Nat} {c : Server} {taken stage : Stage} {listens : Bool}

/-! ## What a step does -/

namespace Host

@[simp] theorem setStage_nodes : (host.setStage i stage).nodes = host.nodes := rfl
@[simp] theorem setStage_binds : (host.setStage i stage).binds = host.binds := rfl
@[simp] theorem named_servers {name : Bytes} : (host.named i name).servers = host.servers := rfl
@[simp] theorem named_binds {name : Bytes} : (host.named i name).binds = host.binds ++ [(name, i)] := rfl

theorem named_node {name name' : Bytes} {node : Node} (h : (host.named i name).nodes name' = some node) :
    name' = name ∧ node = .socket i ∨ name' ≠ name ∧ host.nodes name' = some node := by
  have hupdate : Function.update host.nodes name (some (.socket i)) name' = some node := h
  by_cases he : name' = name
  · rw [he, Function.update_self] at hupdate
    cases hupdate
    exact .inl ⟨he, rfl⟩
  · rw [Function.update_of_ne he] at hupdate
    exact .inr ⟨he, hupdate⟩

/-- A launchd is where it was, and as it was but for the stage of the one that moved. -/
theorem setStage_server {k : Nat} {d : Server} (h : (host.setStage i stage).servers[k]? = some d) :
    ∃ c, host.servers[k]? = some c ∧ d.domain = c.domain ∧ d.last = c.last ∧ (k = i ∧ d.stage = stage ∨ k ≠ i ∧ d = c) := by
  rw [setStage, List.getElem?_modify] at h
  obtain ⟨c, hc, hd⟩ := Option.map_eq_some_iff.mp h
  refine ⟨c, hc, ?_⟩
  by_cases hk : i = k
  · rw [if_pos hk] at hd
    subst hd
    exact ⟨rfl, rfl, .inl ⟨hk.symm, rfl⟩⟩
  · rw [if_neg hk] at hd
    subst hd
    exact ⟨rfl, rfl, .inr ⟨fun he => hk he.symm, rfl⟩⟩

theorem setStage_self (host : Host) (stage : Stage) (h : host.servers[i]? = some c) :
    (host.setStage i stage).servers[i]? = some { c with stage } :=
  (List.getElem?_modify_eq ..).trans (by rw [h]; rfl)

theorem setStage_ne {k : Nat} (h : k ≠ i) : (host.setStage i stage).servers[k]? = host.servers[k]? :=
  List.getElem?_modify_ne _ _ h.symm

/-- The launchds are those that were there, and the new one. -/
theorem launched_server {k : Nat} {d : Server} (h : (host.servers ++ [c])[k]? = some d) :
    host.servers[k]? = some d ∨ d = c := by
  rcases Nat.lt_or_ge k host.servers.length with hk | hk
  · exact .inl (by rwa [List.getElem?_append_left hk] at h)
  · rw [List.getElem?_append_right hk] at h
    exact .inr (List.mem_singleton.mp (List.mem_of_getElem? h))

/-- `bind(2)` finds the name taken, or gives it, or may not. -/
theorem bind_cases (writable : Bytes → Bool) (host : Host) (i : Nat) (c : Server) (taken : Stage) :
    (∃ node, host.nodes c.name = some node) ∧ host.bind writable i c taken = host.setStage i taken ∨
    host.nodes c.name = none ∧ writable c.name ∧ host.bind writable i c taken = (host.named i c.name).setStage i .bound ∨
    host.nodes c.name = none ∧ writable c.name = false ∧ host.bind writable i c taken = host.setStage i .failed := by
  unfold bind
  cases hn : host.nodes c.name with
  | some node => exact .inl ⟨⟨node, rfl⟩, rfl⟩
  | none =>
    cases hw : writable c.name with
    | true => exact .inr (.inl ⟨rfl, rfl, rfl⟩)
    | false => exact .inr (.inr ⟨rfl, rfl, rfl⟩)

/-- `unlink(2)` takes nothing but the path, and only what is no directory. -/
theorem unlink_cases (writable : Bytes → Bool) (host : Host) (path : Bytes) : host.unlink writable path = host ∨
    writable path ∧ host.nodes path ≠ some .directory ∧
      host.unlink writable path = { host with nodes := Function.update host.nodes path none } := by
  unfold unlink
  cases host.nodes path with
  | none => exact .inl rfl
  | some node =>
    cases node with
    | directory => exact .inl rfl
    | socket k =>
      by_cases hw : writable path
      · exact .inr ⟨hw, by simp, if_pos hw⟩
      · exact .inl (if_neg hw)
    | file =>
      by_cases hw : writable path
      · exact .inr ⟨hw, by simp, if_pos hw⟩
      · exact .inl (if_neg hw)

end Host

def Stage.past : Stage → Bool
  | .starting | .inUse | .unlinked => false
  | .bound | .listening | .closed | .failed | .killed => true

/-- The next call of a launchd. -/
theorem advance_cases (h : host.advance writable i listens = some host') : ∃ c, host.servers[i]? = some c ∧
    (c.stage = .starting ∧ host' = host.bind writable i c .inUse ∨
      c.stage = .inUse ∧ host' = (host.unlink writable c.path).setStage i .unlinked ∨
      c.stage = .unlinked ∧ host' = host.bind writable i c .failed ∨
      c.stage = .bound ∧ host' = host.setStage i (if listens then .listening else .failed)) := by
  obtain ⟨c, hc, h⟩ := Option.bind_eq_some_iff.mp h
  refine ⟨c, hc, ?_⟩
  unfold Host.call at h
  cases hs : c.stage with
  | starting | inUse | unlinked | bound =>
    simp only [hs] at h
    cases h
    simp
  | listening | closed | failed | killed =>
    simp only [hs] at h
    cases h

/-- The steps as far as names are concerned: a launchd is started, one binds a free name, or
    no name is given to a socket. -/
inductive Changes (host : Host) : Host → Prop
  | launch (c : Server) : c.stage = .starting → Changes host { host with servers := host.servers ++ [c] }
  | bind (i : Nat) (c : Server) : host.servers[i]? = some c → c.stage.past = false → host.nodes c.name = none →
      Changes host ((host.named i c.name).setStage i .bound)
  | quiet (nodes : Bytes → Option Node) (i : Nat) (stage : Stage) :
      (∀ name k, nodes name = some (.socket k) → host.nodes name = some (.socket k)) →
      (∀ c, host.servers[i]? = some c → c.stage.past → stage.past) →
      Changes host ({ host with nodes }.setStage i stage)
  | files (nodes : Bytes → Option Node) : (∀ name k, nodes name = some (.socket k) → host.nodes name = some (.socket k)) →
      Changes host { host with nodes }

theorem Changes.moves (i : Nat) (stage : Stage) (h : ∀ c, host.servers[i]? = some c → c.stage.past → stage.past) :
    Changes host (host.setStage i stage) := .quiet host.nodes i stage (fun _ _ => id) h

theorem Changes.of_bind (hc : host.servers[i]? = some c) (hs : c.stage.past = false) :
    Changes host (host.bind writable i c taken) := by
  have hstage : ∀ stage : Stage, ∀ c', host.servers[i]? = some c' → c'.stage.past → stage.past := by
    intro stage c' hc' hp
    rw [hc] at hc'
    cases hc'
    rw [hs] at hp
    cases hp
  rcases Host.bind_cases writable host i c taken with
    ⟨-, h⟩ | ⟨hn, -, h⟩ | ⟨-, -, h⟩
  · rw [h]
    exact .moves i taken (hstage taken)
  · rw [h]
    exact .bind i c hc hs hn
  · rw [h]
    exact .moves i .failed (hstage .failed)

/-- A name that is taken away was not given. -/
theorem update_none {nodes : Bytes → Option Node} {path name : Bytes} {node : Node}
    (h : Function.update nodes path none name = some node) : nodes name = some node := by
  by_cases he : name = path
  · rw [he, Function.update_self] at h
    cases h
  · rwa [Function.update_of_ne he] at h

theorem changes_of_step {move : Move} (h : host.step writable move = some host') : Changes host host' := by
  cases move with
  | launch domain last =>
    cases h
    exact .launch _ rfl
  | advance i listens =>
    obtain ⟨c, hc, hcases⟩ := advance_cases h
    rcases hcases with ⟨hs, rfl⟩ | ⟨hs, rfl⟩ | ⟨hs, rfl⟩ | ⟨hs, rfl⟩
    · exact .of_bind hc (by rw [hs]; rfl)
    · have hpast : ∀ c', host.servers[i]? = some c' → c'.stage.past → Stage.unlinked.past := by
        intro c' hc' hp
        rw [hc] at hc'
        cases hc'
        rw [hs] at hp
        cases hp
      rcases Host.unlink_cases writable host c.path with hu | ⟨-, -, hu⟩
      · rw [hu]
        exact .moves i .unlinked hpast
      · rw [hu]
        exact .quiet _ i .unlinked (fun _ _ => update_none) hpast
    · exact .of_bind hc (by rw [hs]; rfl)
    · refine .moves i _ fun _ _ _ => ?_
      cases listens <;> rfl
  | stop i =>
    rw [Host.step] at h
    split at h
    · cases h
      exact .moves i .closed fun _ _ _ => rfl
    · cases h
  | kill i =>
    cases h
    exact .moves i .killed fun _ _ _ => rfl
  | create name directory =>
    rw [Host.step] at h
    split at h
    · cases h
      refine .files _ fun name' k hk => ?_
      by_cases he : name' = name
      · rw [he, Function.update_self] at hk
        cases directory <;> cases hk
      · rwa [Function.update_of_ne he] at hk
    · cases h
  | remove name =>
    cases h
    exact .files _ fun _ _ => update_none

/-! ## The last that bound -/

def Host.lastBind (host : Host) (name : Bytes) : Option Nat := ((host.binds.filter (·.1 = name)).getLast?).map (·.2)

/-- A name leads to the socket that was bound to it last, and a socket that was bound stays so. -/
structure Ordered (host : Host) : Prop where
  last : ∀ name i, host.nodes name = some (.socket i) → host.lastBind name = some i
  bound : ∀ name i, (name, i) ∈ host.binds → ∃ c, host.servers[i]? = some c ∧ c.name = name ∧ c.stage.past

theorem Ordered.owner (h : Ordered host) {name : Bytes} (hn : host.nodes name = some (.socket i)) :
    (name, i) ∈ host.binds := by
  obtain ⟨bound, hlast, rfl⟩ := Option.map_eq_some_iff.mp (h.last name i hn)
  obtain ⟨hmem, hname⟩ := List.mem_filter.mp (List.mem_of_getLast? hlast)
  obtain rfl : bound.1 = name := by simpa using hname
  exact hmem

theorem lastBind_named (name name' : Bytes) :
    (host.named i name).lastBind name' = if name = name' then some i else host.lastBind name' := by
  unfold Host.lastBind
  rw [Host.named_binds, List.filter_append]
  by_cases he : name = name'
  · rw [if_pos he, List.filter_cons_of_pos (by simpa using he), List.filter_nil, List.getLast?_concat]
    rfl
  · rw [if_neg he, List.filter_cons_of_neg (by simpa using he), List.filter_nil, List.append_nil]

/-- A launchd stays in its place with its name, and does not bind again. -/
theorem Changes.server (h : Changes host host') (hc : host.servers[i]? = some c) :
    ∃ c', host'.servers[i]? = some c' ∧ c'.name = c.name ∧ (c.stage.past → c'.stage.past) := by
  have hset : ∀ (host : Host) (k : Nat) (stage : Stage), host.servers[i]? = some c →
      (∀ d, host.servers[k]? = some d → d.stage.past → stage.past) →
      ∃ c', (host.setStage k stage).servers[i]? = some c' ∧ c'.name = c.name ∧ (c.stage.past → c'.stage.past) := by
    intro host k stage hc hp
    by_cases he : i = k
    · subst he
      exact ⟨_, Host.setStage_self _ _ hc, rfl, hp c hc⟩
    · exact ⟨c, (Host.setStage_ne he).trans hc, rfl, id⟩
  cases h with
  | launch d => exact ⟨c, (List.getElem?_append_left (List.getElem?_eq_some_iff.mp hc).1).trans hc, rfl, id⟩
  | bind k d hd _ _ => exact hset (host.named k d.name) k .bound hc fun _ _ _ => rfl
  | quiet nodes k stage _ hp => exact hset { host with nodes } k stage hc hp
  | files => exact ⟨c, hc, rfl, id⟩

theorem Ordered.changes (h : Ordered host) (hs : Changes host host') : Ordered host' := by
  have hold : ∀ name k, (name, k) ∈ host.binds → ∃ c, host'.servers[k]? = some c ∧ c.name = name ∧ c.stage.past := by
    intro name k hm
    obtain ⟨c, hc, hn, hp⟩ := h.bound name k hm
    obtain ⟨c', hc', hn', hp'⟩ := hs.server hc
    exact ⟨c', hc', hn'.trans hn, hp' hp⟩
  cases hs with
  | launch c => exact ⟨h.last, hold⟩
  | quiet nodes k stage hn _ => exact ⟨fun name j hj => h.last name j (hn name j hj), hold⟩
  | files nodes hn => exact ⟨fun name j hj => h.last name j (hn name j hj), hold⟩
  | bind k c hc _ hfree =>
    constructor
    · intro name j hj
      have hlast : ((host.named k c.name).setStage k .bound).lastBind name = (host.named k c.name).lastBind name := rfl
      rw [hlast, lastBind_named]
      rcases Host.named_node (Host.setStage_nodes ▸ hj) with ⟨he, hj⟩ | ⟨he, hj⟩
      · cases hj
        rw [if_pos he.symm]
      · rw [if_neg fun e => he e.symm]
        exact h.last name j hj
    · intro name j hm
      rcases List.mem_append.mp hm with hm | hm
      · exact hold name j hm
      · have hpair : (name, j) = (c.name, k) := List.mem_singleton.mp hm
        obtain ⟨rfl, rfl⟩ := Prod.mk.inj hpair
        exact ⟨_, Host.setStage_self (host.named _ c.name) _ hc, rfl, rfl⟩

theorem ordered (h : host.Reachable writable) : Ordered host := by
  refine h.invariant (fun host hi => ?_) fun _ _ _ hs hn => hs.changes (changes_of_step hn)
  obtain ⟨-, hbinds, hnodes⟩ := hi
  refine ⟨fun name i hn => absurd hn (hnodes name i), fun name i hm => ?_⟩
  rw [hbinds] at hm
  cases hm

theorem connect_some {domain : Domain} {last : UInt8} (h : host.connect domain last = some i) :
    host.nodes (nameIn domain.socketPath last) = some (.socket i) ∧
      ∃ c, host.servers[i]? = some c ∧ c.stage = .listening := by
  unfold Host.connect at h
  split at h
  · rename_i k hk
    split at h
    · rename_i hl
      cases h
      obtain ⟨c, hc, hl⟩ := (Option.any_eq_true ..).mp hl
      exact ⟨hk, c, hc, by simpa using hl⟩
    · cases h
  · cases h
  · cases h
  · cases h

def ofUser (dtype : DomainType) : Domain := { dtype, statedir := ascii "/s" }

def bare : Host := { nodes := fun _ => none }

theorem bare_reachable : bare.Reachable fun _ => true := .init ⟨rfl, rfl, fun _ _ => by simp [bare]⟩

def userThenGui : List Move :=
  [.launch (ofUser .user) 0, .advance 0 true, .advance 0 true,
   .launch (ofUser .gui) 7, .advance 1 true, .advance 1 true, .advance 1 true, .advance 1 true]

theorem reachable_of_play (moves : List Move) (p : Host → Bool)
    (h : (play (Host.step fun _ => true) bare moves).any p) : ∃ host : Host, (host.Reachable fun _ => true) ∧ p host := by
  obtain ⟨host, hs, hp⟩ := steps_of_any h
  exact ⟨host, bare_reachable.later hs.later, hp⟩

/-! ## The ones that lost their name -/

/-- It is through with `bind(2)`, and no name leads to its socket. -/
structure Displaced (i : Nat) (host : Host) : Prop where
  past : ∃ c, host.servers[i]? = some c ∧ c.stage.past
  nameless : ∀ name, host.nodes name ≠ some (.socket i)

theorem Displaced.changes (h : Displaced i host) (hs : Changes host host') : Displaced i host' := by
  obtain ⟨c, hc, hp⟩ := h.past
  have hpast : ∃ c', host'.servers[i]? = some c' ∧ c'.stage.past := by
    obtain ⟨c', hc', -, hp'⟩ := hs.server hc
    exact ⟨c', hc', hp' hp⟩
  cases hs with
  | launch => exact ⟨hpast, h.nameless⟩
  | quiet nodes k stage hn _ => exact ⟨hpast, fun name hi => h.nameless name (hn name i hi)⟩
  | files nodes hn => exact ⟨hpast, fun name hi => h.nameless name (hn name i hi)⟩
  | bind k d hd hstage _ =>
    refine ⟨hpast, fun name hi => ?_⟩
    have hk : k ≠ i := by
      rintro rfl
      rw [hc] at hd
      cases hd
      rw [hp] at hstage
      cases hstage
    rcases Host.named_node (Host.setStage_nodes ▸ hi) with ⟨-, hi⟩ | ⟨-, hi⟩
    · cases hi
      exact hk rfl
    · exact h.nameless name hi

/-- A launchd that bound a name, which leads elsewhere now, is never reached again under any
    name: whatever happens later, and whether or not it still listens. -/
theorem displaced_unreached (h : host.Reachable writable) {name : Bytes} (hb : (name, i) ∈ host.binds)
    (hd : host.nodes name ≠ some (.socket i)) (hl : Later (Host.Next writable) host host') (domain : Domain) (last : UInt8) :
    host'.connect domain last ≠ some i := by
  have hstart : Displaced i host := by
    obtain ⟨c, hc, -, hp⟩ := (ordered h).bound name i hb
    refine ⟨⟨c, hc, hp⟩, fun name' hn => ?_⟩
    obtain ⟨c', hc', hname', -⟩ := (ordered h).bound name' i ((ordered h).owner hn)
    obtain ⟨c'', hc'', hname, -⟩ := (ordered h).bound name i hb
    rw [hc'] at hc''
    cases hc''
    exact hd (hname.symm.trans hname' ▸ hn)
  have hend : Displaced i host' := by
    induction hl with
    | refl => exact hstart
    | tail _ hs ih =>
      obtain ⟨move, hs⟩ := hs
      exact ih.changes (changes_of_step hs)
  exact fun hc => hend.nameless _ (connect_some hc).1

/-- The manager of the user, which listens on. -/
theorem displaced_unreached_user : ∃ host : Host, (host.Reachable fun _ => true) ∧
    (host.servers[0]?).any (·.stage = .listening) ∧ ∀ domain last, host.connect domain last ≠ some 0 := by
  obtain ⟨host, hr, hp⟩ := reachable_of_play userThenGui
    (fun host => (host.servers[0]?).any (·.stage = .listening) && host.binds.contains ((ofUser .user).socketPath, 0) &&
      host.nodes (ofUser .user).socketPath != some (.socket 0)) (by decide +kernel)
  rw [Bool.and_eq_true, Bool.and_eq_true, bne_iff_ne, List.contains_iff_mem] at hp
  obtain ⟨⟨hlistens, hb⟩, hd⟩ := hp
  exact ⟨host, hr, hlistens, displaced_unreached hr hb hd .refl⟩

/-! ## Starting together -/

/-- `unlink(2)` of a name that it may remove. -/
theorem unlink_eq {path : Bytes} (hw : writable path) (hd : host.nodes path ≠ some .directory) :
    host.unlink writable path = { host with nodes := Function.update host.nodes path none } := by
  unfold Host.unlink
  cases hn : host.nodes path with
  | none =>
    have hsame : Function.update host.nodes path none = host.nodes := by rw [← hn, Function.update_eq_self]
    dsimp only
    rw [hsame]
  | some node =>
    cases node with
    | directory => exact absurd hn hd
    | socket k => exact if_pos hw
    | file => exact if_pos hw

/-- Launchds of one state directory are started, and go on with what they do; `listen(2)` does
    not fail. -/
def Starts (dir : Bytes) (_ : Host) : Move → Prop
  | .launch domain _ => domain.statedir = dir
  | .advance _ listens => listens
  | .stop _ | .kill _ | .create _ _ | .remove _ => False

/-- While launchds are started: whoever takes the name away is about to take it for itself. -/
structure Starting (path : Bytes) (host : Host) : Prop where
  paths : ∀ (k : Nat) (c : Server), host.servers[k]? = some c → c.path = path
  directory : host.nodes path ≠ some .directory
  live : ∀ k, host.nodes path = some (.socket k) →
    ∃ c : Server, host.servers[k]? = some c ∧ (c.stage = .bound ∨ c.stage = .listening)
  unlinked : (∃ (k : Nat) (c : Server), host.servers[k]? = some c ∧ c.stage = .unlinked) →
    ∀ node, host.nodes path = some node →
    ∃ k, node = .socket k
  held : (∃ (k : Nat) (c : Server), host.servers[k]? = some c ∧ c.stage.past) →
    (∃ k, host.nodes path = some (.socket k)) ∨ ∃ (k : Nat) (c : Server), host.servers[k]? = some c ∧ c.stage = .unlinked

section Starting

variable {path : Bytes}

theorem Starting.paths_setStage {nodes : Bytes → Option Node} {binds : List (Bytes × Nat)} (h : Starting path host) :
    ∀ (k : Nat) (d : Server), (Host.setStage { host with nodes, binds } i stage).servers[k]? = some d → d.path = path := by
  intro k d hd
  obtain ⟨c, hc, hdomain, -, -⟩ := Host.setStage_server hd
  rw [← h.paths k c hc, Server.path, Server.path, hdomain]

/-- A launchd goes on, and no name changes. -/
theorem Starting.moves (h : Starting path host) (hc : host.servers[i]? = some c) (hu : stage ≠ .unlinked)
    (hlive : c.stage = .bound ∨ c.stage = .listening → stage = .bound ∨ stage = .listening)
    (hpast : stage.past → c.stage.past ∨ ∃ k, host.nodes path = some (.socket k))
    (hwas : c.stage = .unlinked → ∃ k, host.nodes path = some (.socket k)) : Starting path (host.setStage i stage) where
  paths := h.paths_setStage
  directory := h.directory
  live k hk := by
    obtain ⟨d, hd, hs⟩ := h.live k hk
    by_cases he : k = i
    · subst he
      rw [hc] at hd
      cases hd
      exact ⟨_, Host.setStage_self _ _ hc, hlive hs⟩
    · exact ⟨d, (Host.setStage_ne he).trans hd, hs⟩
  unlinked hex := by
    obtain ⟨k, d, hd, hs⟩ := hex
    obtain ⟨c', hc', -, -, hcases⟩ := Host.setStage_server hd
    rcases hcases with ⟨-, hstage⟩ | ⟨-, rfl⟩
    · exact absurd (hstage.symm.trans hs) hu
    · exact h.unlinked ⟨k, d, hc', hs⟩
  held hex := by
    have hbefore : (∃ k, host.nodes path = some (.socket k)) ∨
        ∃ (k : Nat) (d : Server), host.servers[k]? = some d ∧ d.stage.past := by
      obtain ⟨k, d, hd, hp⟩ := hex
      obtain ⟨c', hc', -, -, hcases⟩ := Host.setStage_server hd
      rcases hcases with ⟨-, hstage⟩ | ⟨-, rfl⟩
      · rw [hstage] at hp
        rcases hpast hp with hp | hk
        · exact .inr ⟨i, c, hc, hp⟩
        · exact .inl hk
      · exact .inr ⟨k, d, hc', hp⟩
    rcases hbefore with hk | hp
    · exact .inl hk
    rcases h.held hp with hk | ⟨k, d, hd, hs⟩
    · exact .inl hk
    by_cases he : k = i
    · subst he
      rw [hc] at hd
      cases hd
      exact .inl (hwas hs)
    · exact .inr ⟨k, d, (Host.setStage_ne he).trans hd, hs⟩

/-- A launchd gets the name. -/
theorem Starting.binds (h : Starting path host) (hc : host.servers[i]? = some c) :
    Starting path ((host.named i path).setStage i .bound) := by
  have hname : ((host.named i path).setStage i .bound).nodes path = some (.socket i) := Function.update_self ..
  constructor
  · exact h.paths_setStage
  · rw [hname]
    simp
  · intro k hk
    rw [hname] at hk
    cases hk
    exact ⟨_, Host.setStage_self (host.named i path) _ hc, .inl rfl⟩
  · intro _ node hnode
    rw [hname] at hnode
    cases hnode
    exact ⟨i, rfl⟩
  · exact fun _ => .inl ⟨i, hname⟩

/-- A launchd takes the name away. -/
theorem Starting.unlinks (h : Starting path host) (hw : writable path) (hc : host.servers[i]? = some c) :
    Starting path ((host.unlink writable path).setStage i .unlinked) := by
  rw [unlink_eq hw h.directory]
  have hnone : (Host.setStage { host with nodes := Function.update host.nodes path none } i .unlinked).nodes path = none :=
    Function.update_self ..
  constructor
  · exact h.paths_setStage
  · rw [hnone]
    simp
  · intro k hk
    rw [hnone] at hk
    cases hk
  · intro _ node hnode
    rw [hnone] at hnode
    cases hnode
  · exact fun _ => .inr ⟨i, _, Host.setStage_self _ _ hc, rfl⟩

theorem Starting.bind (h : Starting path host) (hfits : Fits path) (hw : writable path) (hc : host.servers[i]? = some c)
    (hs : c.stage = .starting ∧ taken = .inUse ∨ c.stage = .unlinked ∧ taken = .failed) :
    Starting path (host.bind writable i c taken) := by
  have hpath : c.path = path := h.paths i c hc
  have hname : c.name = path := by
    rw [Server.name, ← nameIn_untilNul, ← Server.path, hpath]
    exact nameIn_of_fits hfits c.last
  rcases Host.bind_cases writable host i c taken with
    ⟨htaken, he⟩ | ⟨-, -, he⟩ | ⟨-, hno, -⟩
  · rw [he]
    obtain ⟨node, hnode⟩ := htaken
    rw [hname] at hnode
    rcases hs with ⟨hstage, rfl⟩ | ⟨hstage, rfl⟩
    · refine h.moves hc (by simp) (fun hl => ?_) (fun hp => by cases hp) fun hu => ?_
      · rw [hstage] at hl
        simp at hl
      · rw [hstage] at hu
        cases hu
    · obtain ⟨k, rfl⟩ := h.unlinked ⟨i, c, hc, hstage⟩ node hnode
      refine h.moves hc (by simp) (fun hl => ?_) (fun _ => .inr ⟨k, hnode⟩) fun _ => ⟨k, hnode⟩
      rw [hstage] at hl
      simp at hl
  · rw [he, hname]
    exact h.binds hc
  · rw [hname, hw] at hno
    cases hno

theorem Starting.launch (h : Starting path host) (hc : c.path = path) (hs : c.stage = .starting) :
    Starting path { host with servers := host.servers ++ [c] } := by
  have hnew := fun (k : Nat) (d : Server) => @Host.launched_server host c k d
  have hkept : ∀ (k : Nat) (d : Server), host.servers[k]? = some d → (host.servers ++ [c])[k]? = some d := fun k d hd =>
    (List.getElem?_append_left (List.getElem?_eq_some_iff.mp hd).1).trans hd
  constructor
  · intro k d hd
    rcases hnew k d hd with hd | rfl
    · exact h.paths k d hd
    · exact hc
  · exact h.directory
  · intro k hk
    obtain ⟨d, hd, hstage⟩ := h.live k hk
    exact ⟨d, hkept k d hd, hstage⟩
  · intro hex
    obtain ⟨k, d, hd, hstage⟩ := hex
    rcases hnew k d hd with hd | rfl
    · exact h.unlinked ⟨k, d, hd, hstage⟩
    · rw [hs] at hstage
      cases hstage
  · intro hex
    obtain ⟨k, d, hd, hp⟩ := hex
    rcases hnew k d hd with hd | rfl
    · rcases h.held ⟨k, d, hd, hp⟩ with hk | hu
      · exact .inl hk
      · obtain ⟨k', d', hd', hstage⟩ := hu
        exact .inr ⟨k', d', hkept k' d' hd', hstage⟩
    · rw [hs] at hp
      cases hp

theorem Starting.step {dir : Bytes} {move : Move} (hfits : Fits path) (hw : writable path)
    (hdir : path = joinPath dir (ascii "rpc.sock")) (h : Starting path host) (hm : Starts dir host move)
    (hs : host.step writable move = some host') : Starting path host' := by
  cases move with
  | stop | kill | create | remove => exact hm.elim
  | launch domain last =>
    cases hs
    have hstatedir : domain.statedir = dir := hm
    refine h.launch (c := { domain, last }) ?_ rfl
    rw [Server.path, Domain.socketPath, hstatedir, ← hdir]
    exact untilNul_of_noNul hfits.2
  | advance i listens =>
    have hlistens : listens = true := hm
    obtain ⟨c, hc, hcases⟩ := advance_cases hs
    rcases hcases with ⟨hstage, rfl⟩ | ⟨hstage, rfl⟩ | ⟨hstage, rfl⟩ | ⟨hstage, rfl⟩
    · exact h.bind hfits hw hc (.inl ⟨hstage, rfl⟩)
    · rw [h.paths i c hc]
      exact h.unlinks hw hc
    · exact h.bind hfits hw hc (.inr ⟨hstage, rfl⟩)
    · rw [if_pos hlistens]
      refine h.moves hc (by simp) (fun _ => .inr rfl) (fun _ => .inl (by rw [hstage]; rfl)) fun hu => ?_
      rw [hstage] at hu
      cases hu

end Starting

def Host.Settled (host : Host) : Prop :=
  ∀ (k : Nat) (c : Server), host.servers[k]? = some c → c.stage = .listening ∨ c.stage = .failed

/-- Whatever was left under the name, and in whichever order the launchds that are started
    make their calls: when all are through, every client of the directory reaches one of
    them, the last that bound. -/
theorem started_one_reached {dir : Bytes} {left : Host} (hfits : Fits (joinPath dir (ascii "rpc.sock")))
    (hw : writable (joinPath dir (ascii "rpc.sock"))) (hi : left.Init)
    (hd : left.nodes (joinPath dir (ascii "rpc.sock")) ≠ some .directory)
    (hl : Later (Under (Host.Next writable) (Starts dir)) left host) (hsome : host.servers ≠ []) (hsettled : host.Settled) :
    ∃ i, host.lastBind (joinPath dir (ascii "rpc.sock")) = some i ∧
      ∀ domain last, domain.statedir = dir → host.connect domain last = some i := by
  obtain ⟨path, hpath⟩ : ∃ path, path = joinPath dir (ascii "rpc.sock") := ⟨_, rfl⟩
  rw [← hpath] at hfits hw hd ⊢
  have hreach : host.Reachable writable := Reach.later (.init hi) (hl.mono fun _ _ _ hs => hs.1)
  have hstart : Starting path left := by
    have hnone : ∀ (k : Nat) (c : Server), left.servers[k]? ≠ some c := by
      intro k c hc
      rw [hi.1] at hc
      cases hc
    refine ⟨fun k c hc => absurd hc (hnone k c), hd, fun k hk => absurd hk (hi.2.2 path k), fun hex => ?_, fun hex => ?_⟩
    · obtain ⟨k, c, hc, -⟩ := hex
      exact absurd hc (hnone k c)
    · obtain ⟨k, c, hc, -⟩ := hex
      exact absurd hc (hnone k c)
  have hstarting : Starting path host := by
    clear hsome hsettled hreach
    induction hl with
    | refl => exact hstart
    | tail _ hs ih =>
      obtain ⟨move, hs, hm⟩ := hs
      exact ih.step hfits hw hpath hm hs
  have hpast : ∃ (k : Nat) (c : Server), host.servers[k]? = some c ∧ c.stage.past := by
    obtain ⟨c, hc⟩ := List.exists_mem_of_ne_nil _ hsome
    obtain ⟨k, hk⟩ := List.mem_iff_getElem?.mp hc
    refine ⟨k, c, hk, ?_⟩
    rcases hsettled k c hk with hs | hs
    · rw [hs]
      rfl
    · rw [hs]
      rfl
  rcases hstarting.held hpast with ⟨i, hi⟩ | ⟨k, c, hc, hs⟩
  · refine ⟨i, (ordered hreach).last path i hi, fun domain last hdomain => ?_⟩
    obtain ⟨c, hc, hlive⟩ := hstarting.live i hi
    have hlistening : c.stage = .listening := by
      rcases hsettled i c hc with hs | hs
      · exact hs
      · rw [hs] at hlive
        simp at hlive
    have hsocket : nameIn domain.socketPath last = path := by
      rw [Domain.socketPath, hdomain, ← hpath]
      exact nameIn_of_fits hfits last
    rw [Host.connect, hsocket, hi]
    dsimp only
    rw [if_pos (by simp [hc, hlistening])]
  · rcases hsettled k c hc with he | he
    · rw [hs] at he
      cases he
    · rw [hs] at he
      cases he

instance (dir : Bytes) (host : Host) : DecidablePred (Starts dir host)
  | .launch domain _ => inferInstanceAs (Decidable (domain.statedir = dir))
  | .advance _ listens => inferInstanceAs (Decidable (listens = true))
  | .stop _ | .kill _ | .create _ _ | .remove _ => inferInstanceAs (Decidable False)

def atOnce : List Move :=
  [.launch (ofUser .user) 0, .launch (ofUser .gui) 7, .advance 0 true, .advance 1 true, .advance 0 true, .advance 1 true,
   .advance 1 true, .advance 0 true, .advance 1 true]

def Host.isSettled (host : Host) : Bool := host.servers.all fun c => c.stage == .listening || c.stage == .failed

theorem started_one_reached_race : ∃ host : Host, host.servers.length = 2 ∧ host.Settled ∧
    ∃ i, host.lastBind (ofUser .user).socketPath = some i ∧
      ∀ domain last, domain.statedir = ascii "/s" → host.connect domain last = some i := by
  obtain ⟨host, hl, hp⟩ := later_of_play (Host.step fun _ => true) (Starts (ascii "/s")) atOnce
    { nodes := fun _ => some .file } (fun host => host.servers.length == 2 && host.isSettled) (by decide +kernel)
  rw [Bool.and_eq_true, beq_iff_eq] at hp
  obtain ⟨hlen, hset⟩ := hp
  have hsettled : host.Settled := by
    intro k c hc
    have hall := List.all_eq_true.mp hset c (List.mem_of_getElem? hc)
    simpa using hall
  have hsome : host.servers ≠ [] := by
    rintro he
    rw [he] at hlen
    cases hlen
  have hfits : Fits (joinPath (ascii "/s") (ascii "rpc.sock")) := ⟨by decide +kernel, by decide +kernel⟩
  exact ⟨host, hlen, hsettled, started_one_reached hfits rfl ⟨rfl, rfl, by simp⟩ (by simp) hl hsome hsettled⟩

/-! ## Starting alone -/

section Start

variable {fuel : Nat}

theorem advance_at (hc : host.servers[i]? = some c) : host.advance writable i listens = host.call writable i c listens := by
  rw [Host.advance, hc]
  rfl

def Host.isListening (host : Host) (i : Nat) : Bool := (host.servers[i]?).any (·.stage = .listening)

theorem isListening_at (hc : host.servers[i]? = some c) : host.isListening i = decide (c.stage = .listening) := by
  rw [Host.isListening, hc]
  rfl

/-- One that is through stays as it is. -/
theorem settle_through (hc : host.servers[i]? = some c) (hs : c.stage = .listening ∨ c.stage = .failed) :
    Host.settle writable i fuel host = host := by
  cases fuel with
  | zero => rfl
  | succ fuel =>
    have hnone : host.advance writable i true = none := by
      rw [advance_at hc, Host.call]
      rcases hs with hs | hs
      · rw [hs]
      · rw [hs]
    rw [Host.settle, hnone]

theorem settle_advance (ha : host.advance writable i true = some host') :
    Host.settle writable i (fuel + 1) host = Host.settle writable i fuel host' := by
  rw [Host.settle, ha]

/-- One that has bound its name listens. -/
theorem settle_bound (hc : host.servers[i]? = some c) (hs : c.stage = .bound) :
    (Host.settle writable i (fuel + 1) host).isListening i = true := by
  have ha : host.advance writable i true = some (host.setStage i .listening) := by
    rw [advance_at hc, Host.call, hs]
    rfl
  have hend := Host.setStage_self _ .listening hc
  rw [settle_advance ha, settle_through hend (.inl rfl), isListening_at hend]
  rfl

/-- What comes of a `bind(2)` after which there is nothing else to try. -/
theorem settle_rebind (hc : host.servers[i]? = some c) (hs : c.stage = .unlinked) :
    (Host.settle writable i (fuel + 2) host).isListening i ↔ writable c.name ∧ host.nodes c.name = none := by
  have ha : host.advance writable i true = some (host.bind writable i c .failed) := by
    rw [advance_at hc, Host.call, hs]
  rw [settle_advance ha]
  rcases Host.bind_cases writable host i c .failed with
    ⟨⟨node, hn⟩, h⟩ | ⟨hn, hw, h⟩ | ⟨hn, hw, h⟩
  · have hend := Host.setStage_self _ .failed hc
    rw [h, settle_through hend (.inr rfl), isListening_at hend, hn]
    simp
  · have hbound := Host.setStage_self (host.named i c.name) .bound hc
    rw [h, settle_bound hbound rfl, hn, hw]
    simp
  · have hend := Host.setStage_self _ .failed hc
    rw [h, settle_through hend (.inr rfl), isListening_at hend, hw]
    simp

/-- After `unlink(2)` the name is free if it was, or if it is the path and could be removed. -/
theorem unlink_free {path name : Bytes} : (host.unlink writable path).nodes name = none ↔
    host.nodes name = none ∨ name = path ∧ writable path ∧ host.nodes name ≠ some .directory := by
  by_cases hn : host.nodes name = none
  · have hfree : (host.unlink writable path).nodes name = none := by
      rcases Host.unlink_cases writable host path with hu | ⟨-, -, hu⟩
      · rw [hu, hn]
      · rw [hu]
        by_cases he : name = path
        · rw [he]
          exact Function.update_self ..
        · exact (Function.update_of_ne he ..).trans hn
    exact ⟨fun _ => .inl hn, fun _ => hfree⟩
  · constructor
    · intro hfree
      rcases Host.unlink_cases writable host path with hu | ⟨hw, hd, hu⟩
      · rw [hu] at hfree
        exact .inl hfree
      · rw [hu] at hfree
        have he : name = path := by
          by_contra hne
          exact hn ((Function.update_of_ne hne none host.nodes).symm.trans hfree)
        exact .inr ⟨he, hw, he ▸ hd⟩
    · intro h
      rcases h with h | ⟨rfl, hw, hd⟩
      · exact absurd h hn
      · rw [unlink_eq hw hd]
        exact Function.update_self ..

/-- A launchd that starts while nobody else runs comes to listen if its name is free, or is
    the whole path and not a directory's; and where it may not make files it never does. -/
theorem start_listens_iff (domain : Domain) (last : UInt8) :
    (host.start writable domain last).isListening host.servers.length ↔
      writable (nameIn domain.socketPath last) ∧
        (host.nodes (nameIn domain.socketPath last) = none ∨
          nameIn domain.socketPath last = untilNul domain.socketPath ∧
            host.nodes (nameIn domain.socketPath last) ≠ some .directory) := by
  obtain ⟨c, hcdef⟩ : ∃ c : Server, c = { domain, last } := ⟨_, rfl⟩
  obtain ⟨launched, hlaunched⟩ : ∃ launched, launched = { host with servers := host.servers ++ [c] } := ⟨_, rfl⟩
  have hc : launched.servers[host.servers.length]? = some c := by
    rw [hlaunched]
    exact List.getElem?_concat_length ..
  have hnodes : launched.nodes = host.nodes := by rw [hlaunched]
  have hname : nameIn domain.socketPath last = c.name := by rw [hcdef]; rfl
  have hpath : untilNul domain.socketPath = c.path := by rw [hcdef]; rfl
  have hstage : c.stage = .starting := by rw [hcdef]
  have hstart : host.start writable domain last = Host.settle writable host.servers.length 4 launched := by
    rw [Host.start, hlaunched, hcdef]
  have ha : launched.advance writable host.servers.length true =
      some (launched.bind writable host.servers.length c .inUse) := by
    rw [advance_at hc, Host.call, hstage]
  rw [hstart, settle_advance ha, hname, hpath, ← hnodes]
  rcases Host.bind_cases writable launched host.servers.length c .inUse with
    ⟨⟨node, hn⟩, h⟩ | ⟨hn, hw, h⟩ | ⟨hn, hw, h⟩
  · have htaken := Host.setStage_self _ .inUse hc
    have hunlink : (launched.setStage host.servers.length .inUse).advance writable host.servers.length true =
        some (((launched.setStage host.servers.length .inUse).unlink writable c.path).setStage
          host.servers.length .unlinked) := by
      rw [advance_at htaken]
      rfl
    have hservers : ((launched.setStage host.servers.length .inUse).unlink writable c.path).servers[host.servers.length]? =
        some { c with stage := .inUse } := by
      rcases Host.unlink_cases writable (launched.setStage host.servers.length .inUse) c.path with
        hu | ⟨-, -, hu⟩
      · rw [hu]
        exact htaken
      · rw [hu]
        exact htaken
    rw [h, settle_advance hunlink, settle_rebind (Host.setStage_self _ _ hservers) rfl]
    have hfree : (((launched.setStage host.servers.length .inUse).unlink writable c.path).setStage
        host.servers.length .unlinked).nodes c.name = none ↔
        launched.nodes c.name = none ∨ c.name = c.path ∧ writable c.path ∧ launched.nodes c.name ≠ some .directory :=
      unlink_free
    constructor
    · intro hboth
      obtain ⟨hw, hnone⟩ := hboth
      refine ⟨hw, (hfree.mp hnone).imp_right fun hr => ⟨hr.1, hr.2.2⟩⟩
    · intro hboth
      obtain ⟨hw, hor⟩ := hboth
      refine ⟨hw, hfree.mpr (hor.imp_right fun hr => ⟨hr.1, ?_, hr.2⟩)⟩
      rw [← hr.1]
      exact hw
  · have hbound := Host.setStage_self (launched.named host.servers.length c.name) .bound hc
    rw [h, settle_bound hbound rfl, hn, hw]
    simp
  · have hend := Host.setStage_self _ .failed hc
    rw [h, settle_through hend (.inr rfl), isListening_at hend, hw]
    simp

end Start

/-! ## Names that are cut off -/

/-- Nobody takes a name away: no path is that name, and no other program removes it. -/
def Leaves (name : Bytes) (_ : Host) : Move → Prop
  | .launch domain _ => untilNul domain.socketPath ≠ name
  | .remove name' => name' ≠ name
  | .advance _ _ | .stop _ | .kill _ | .create _ _ => True

/-- The name is taken, and none of the launchds from the `n`th on has bound it. -/
structure Taken (name : Bytes) (n : Nat) (host : Host) : Prop where
  taken : ∃ node, host.nodes name = some node
  paths : ∀ (k : Nat) (c : Server), host.servers[k]? = some c → c.path ≠ name
  unbound : ∀ (k : Nat) (c : Server), n ≤ k → host.servers[k]? = some c → c.name = name →
    c.stage ≠ .bound ∧ c.stage ≠ .listening

section Taken

variable {name : Bytes} {n : Nat}

/-- A launchd goes on, and nothing happens to the name. -/
theorem Taken.moves {nodes : Bytes → Option Node} {binds : List (Bytes × Nat)} (h : Taken name n host)
    (hnodes : nodes name = host.nodes name)
    (hs : ∀ c : Server, n ≤ i → host.servers[i]? = some c → c.name = name → stage ≠ .bound ∧ stage ≠ .listening) :
    Taken name n (Host.setStage { host with nodes, binds } i stage) where
  taken := by
    obtain ⟨node, hnode⟩ := h.taken
    exact ⟨node, hnodes.trans hnode⟩
  paths k d hd := by
    obtain ⟨c, hc, hdomain, -, -⟩ := Host.setStage_server hd
    rw [Server.path, hdomain]
    exact h.paths k c hc
  unbound k d hk hd hn := by
    obtain ⟨c, hc, hdomain, hlast, hcases⟩ := Host.setStage_server hd
    rcases hcases with ⟨rfl, hstage⟩ | ⟨-, rfl⟩
    · rw [hstage]
      refine hs c hk hc ?_
      rw [← hn, Server.name, Server.name, hdomain, hlast]
    · exact h.unbound k d hk hc hn

theorem Taken.bind (h : Taken name n host) (hc : host.servers[i]? = some c) (ht : taken ≠ .bound ∧ taken ≠ .listening) :
    Taken name n (host.bind writable i c taken) := by
  rcases Host.bind_cases writable host i c taken with
    ⟨-, he⟩ | ⟨hfree, -, he⟩ | ⟨-, -, he⟩
  · rw [he]
    exact h.moves rfl fun _ _ _ _ => ht
  · rw [he]
    have hne : c.name ≠ name := by
      rintro rfl
      obtain ⟨node, hnode⟩ := h.taken
      rw [hfree] at hnode
      cases hnode
    refine h.moves (Function.update_of_ne hne.symm ..) fun d _ hd hdn => ?_
    rw [hc] at hd
    cases hd
    exact absurd hdn hne
  · rw [he]
    exact h.moves rfl fun _ _ _ _ => by simp

theorem Taken.launch (h : Taken name n host) (hc : c.path ≠ name) (hs : c.stage = .starting) :
    Taken name n { host with servers := host.servers ++ [c] } := by
  have hnew := fun (k : Nat) (d : Server) => @Host.launched_server host c k d
  refine ⟨h.taken, fun k d hd => ?_, fun k d hk hd hn => ?_⟩
  · rcases hnew k d hd with hd | rfl
    · exact h.paths k d hd
    · exact hc
  · rcases hnew k d hd with hd | rfl
    · exact h.unbound k d hk hd hn
    · rw [hs]
      simp

theorem Taken.step {move : Move} (h : Taken name n host) (hm : Leaves name host move)
    (hs : host.step writable move = some host') : Taken name n host' := by
  cases move with
  | launch domain last =>
    cases hs
    exact h.launch (c := { domain, last }) hm rfl
  | advance i listens =>
    obtain ⟨c, hc, hcases⟩ := advance_cases hs
    rcases hcases with ⟨-, rfl⟩ | ⟨-, rfl⟩ | ⟨-, rfl⟩ | ⟨hstage, rfl⟩
    · exact h.bind hc (by simp)
    · rcases Host.unlink_cases writable host c.path with hu | ⟨-, -, hu⟩
      · rw [hu]
        exact h.moves rfl fun _ _ _ _ => by simp
      · rw [hu]
        exact h.moves (Function.update_of_ne (h.paths i c hc).symm ..) fun _ _ _ _ => by simp
    · exact h.bind hc (by simp)
    · refine h.moves rfl fun d hk hd hn => ?_
      rw [hc] at hd
      cases hd
      exact absurd hstage (h.unbound i c hk hc hn).1
  | stop i =>
    rw [Host.step] at hs
    split at hs
    · cases hs
      exact h.moves rfl fun _ _ _ _ => by simp
    · cases hs
  | kill i =>
    cases hs
    exact h.moves rfl fun _ _ _ _ => by simp
  | create name' directory =>
    rw [Host.step] at hs
    split at hs
    · rename_i hfree
      cases hs
      obtain ⟨node, hnode⟩ := h.taken
      have hne : name ≠ name' := by
        rintro rfl
        rw [hnode] at hfree
        cases hfree
      exact ⟨⟨node, (Function.update_of_ne hne ..).trans hnode⟩, h.paths, h.unbound⟩
    · cases hs
  | remove name' =>
    cases hs
    obtain ⟨node, hnode⟩ := h.taken
    have hne : name' ≠ name := hm
    exact ⟨⟨node, (Function.update_of_ne hne.symm ..).trans hnode⟩, h.paths, h.unbound⟩

end Taken

/-- A name that is not the path of the launchds that bind it is not taken away by them: once
    it is there, no launchd that is started later comes to listen under it. -/
theorem taken_for_good {name : Bytes} (htaken : (host.nodes name).isSome) (hpaths : ∀ c ∈ host.servers, c.path ≠ name)
    (hl : Later (Under (Host.Next writable) (Leaves name)) host host') (hi : host.servers.length ≤ i)
    (hc : host'.servers[i]? = some c) (hn : c.name = name) : c.stage ≠ .listening := by
  have hstart : Taken name host.servers.length host := by
    refine ⟨Option.isSome_iff_exists.mp htaken, fun k c hc => hpaths c (List.mem_of_getElem? hc), fun k c hk hc _ => ?_⟩
    have hlt := (List.getElem?_eq_some_iff.mp hc).1
    omega
  have hend : Taken name host.servers.length host' := by
    clear hc
    induction hl with
    | refl => exact hstart
    | tail _ hs ih =>
      obtain ⟨move, hs, hm⟩ := hs
      exact ih.step hm hs
  exact (hend.unbound i c hi hc hn).2

def deep : Domain := { dtype := .user, statedir := List.replicate 120 97 }

instance (name : Bytes) (host : Host) : DecidablePred (Leaves name host)
  | .launch domain _ => inferInstanceAs (Decidable (untilNul domain.socketPath ≠ name))
  | .remove name' => inferInstanceAs (Decidable (name' ≠ name))
  | .advance _ _ | .stop _ | .kill _ | .create _ _ => inferInstanceAs (Decidable True)

/-- The first launchd is killed and another is started, which fails. -/
theorem taken_for_good_deep : ∃ (host host' : Host) (c : Server),
    Later (Under (Host.Next fun _ => true) (Leaves (nameIn deep.socketPath 0))) host host' ∧
      host'.servers[1]? = some c ∧ c.stage = .failed ∧ c.stage ≠ .listening := by
  obtain ⟨host, hr, hp⟩ := reachable_of_play [.launch deep 0, .advance 0 true, .advance 0 true]
    (fun host => (host.nodes (nameIn deep.socketPath 0)).isSome && host.servers.length == 1 &&
      host.servers.all (·.path = deep.socketPath) &&
      (play (stepIf (Host.step fun _ => true) (Leaves (nameIn deep.socketPath 0))) host
        [.kill 0, .launch deep 0, .advance 1 true, .advance 1 true, .advance 1 true]).any fun host =>
          (host.servers[1]?).any fun c => c.stage = .failed && c.name = nameIn deep.socketPath 0) (by decide +kernel)
  rw [Bool.and_eq_true, Bool.and_eq_true, Bool.and_eq_true, beq_iff_eq] at hp
  obtain ⟨⟨⟨htaken, hlen⟩, hpaths⟩, hplay⟩ := hp
  obtain ⟨host', hl, hp⟩ := later_of_play _ _ _ _ _ hplay
  obtain ⟨c, hc, hp⟩ := (Option.any_eq_true ..).mp hp
  rw [Bool.and_eq_true, decide_eq_true_eq, decide_eq_true_eq] at hp
  have hne : ∀ c ∈ host.servers, c.path ≠ nameIn deep.socketPath 0 := by
    intro c hm he
    have hpath : c.path = deep.socketPath := by simpa using List.all_eq_true.mp hpaths c hm
    exact @nameIn_ne deep.socketPath (by decide +kernel) 0 (he.symm.trans hpath)
  exact ⟨host, host', c, hl, hc, hp.1, taken_for_good htaken hne hl (by omega) hc hp.2⟩

end Rendezvous

end Relaunchd
