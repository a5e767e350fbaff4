/-
  Relaunchd.Properties.Durability — what is left of the state file when launchd is killed, and
  what the next launchd makes of it.
-/

import Relaunchd.Durable

namespace Relaunchd

open Transition

namespace StateFile

variable {V : Type} {codec : Codec V} {defaultValue : V} {dataPath : String} {first : Option V}

theorem tmpPath_ne (pid : Nat) : tmpPath dataPath pid ≠ dataPath := by
  intro h
  have hlen := congrArg String.length h
  rw [tmpPath, String.length_append, String.length_append] at hlen
  have htmp : ".tmp".length = 4 := rfl
  omega

namespace Machine

variable {m m' : Machine V} {move : Move V} {bytes : Option Bytes} {path : String}

@[simp] theorem put_self : (m.put path bytes).files path = bytes := Function.update_self ..

theorem put_ne {path' : String} (h : path' ≠ path) : (m.put path bytes).files path' = m.files path' := Function.update_of_ne h ..

@[simp] theorem put_pid : (m.put path bytes).pid = m.pid := rfl

@[simp] theorem put_stage : (m.put path bytes).stage = m.stage := rfl

/-! ## The moves that are possible -/

inductive Moved (codec : Codec V) (defaultValue : V) (dataPath : String) (m : Machine V) : Move V → Machine V → Prop
  | starts (pid : Nat) : m.stage = .dead → Moved codec defaultValue dataPath m (.starts pid) { m with pid, stage := .constructing }
  | construct (opens : Bool) : m.stage = .constructing →
      Moved codec defaultValue dataPath m (.construct opens) (m.constructs codec dataPath opens)
  | setValue (newValue currentValue : V) : m.stage = .ready currentValue →
      Moved codec defaultValue dataPath m (.setValue newValue) { m with stage := .opening (.set newValue currentValue) }
  | opens (save : Save V) : m.stage = .opening save → Moved codec defaultValue dataPath m (.opens true)
      { m.put (save.path dataPath m.pid) (some []) with stage := .writing save (save.text codec defaultValue) }
  | opensNot (save : Save V) : m.stage = .opening save →
      Moved codec defaultValue dataPath m (.opens false) { m with stage := .writing save [] }
  | writes (save : Save V) (rest : Bytes) (n : Nat) : m.stage = .writing save rest → Moved codec defaultValue dataPath m (.writes (some n))
      { m.put (save.path dataPath m.pid) ((m.files (save.path dataPath m.pid)).map (· ++ rest.take n)) with
        stage := .writing save (rest.drop n) }
  | writesNot (save : Save V) (rest : Bytes) : m.stage = .writing save rest →
      Moved codec defaultValue dataPath m (.writes none) { m with stage := .writing save [] }
  | closes (save : Save V) (renames : Bool) : m.stage = .writing save [] →
      Moved codec defaultValue dataPath m (.closes renames) (m.finishes defaultValue dataPath renames save)
  | killed : Moved codec defaultValue dataPath m .killed { m with stage := .dead }

theorem moved (h : Moves codec defaultValue dataPath m move m') : Moved codec defaultValue dataPath m move m' := by
  unfold Moves step at h
  cases move with
  | starts pid =>
    cases hs : m.stage with
    | dead => rw [hs] at h; cases h; exact .starts pid hs
    | constructing | ready _ | opening _ | writing _ _ => rw [hs] at h; cases h
  | construct opens =>
    cases hs : m.stage with
    | constructing => rw [hs] at h; cases h; exact .construct opens hs
    | dead | ready _ | opening _ | writing _ _ => rw [hs] at h; cases h
  | setValue value =>
    cases hs : m.stage with
    | ready currentValue => rw [hs] at h; cases h; exact .setValue value currentValue hs
    | dead | constructing | opening _ | writing _ _ => rw [hs] at h; cases h
  | opens succeeds =>
    cases hs : m.stage with
    | opening save =>
      rw [hs] at h
      cases succeeds with
      | true => cases h; exact .opens save hs
      | false => cases h; exact .opensNot save hs
    | dead | constructing | ready _ | writing _ _ => rw [hs] at h; cases h
  | writes bytes =>
    cases hs : m.stage with
    | writing save rest =>
      rw [hs] at h
      cases bytes with
      | some n => cases h; exact .writes save rest n hs
      | none => cases h; exact .writesNot save rest hs
    | dead | constructing | ready _ | opening _ => rw [hs] at h; cases h
  | closes renames =>
    cases hs : m.stage with
    | writing save rest =>
      rw [hs] at h
      cases rest with
      | nil => cases h; exact .closes save renames hs
      | cons b rest => cases h
    | dead | constructing | ready _ | opening _ => rw [hs] at h; cases h
  | killed => cases h; exact .killed

/-! ## Killed between two system calls -/

def reads (codec : Codec V) (defaultValue : V) (dataPath : String) (m : Machine V) : Option V :=
  match m.files dataPath with
  | none => some defaultValue
  | some text => codec.parse text

theorem reads_of {n : Machine V} (h : n.files dataPath = m.files dataPath) :
    reads codec defaultValue dataPath n = reads codec defaultValue dataPath m := by
  rw [reads, h, reads]

theorem reads_none (h : m.files dataPath = none) : reads codec defaultValue dataPath m = some defaultValue := by
  rw [reads, h]

theorem reads_some {text : Bytes} (h : m.files dataPath = some text) :
    reads codec defaultValue dataPath m = codec.parse text := by
  rw [reads, h]

/-- What is in a file, and what is still to be written, make up the text; or there is no file. -/
def Partly (text rest : Bytes) (file : Option Bytes) : Prop :=
  (file = none ∧ rest = []) ∨ ∃ written, file = some written ∧ written ++ rest = text

theorem Partly.writes {text rest : Bytes} {file : Option Bytes} (h : Partly text rest file) (n : Nat) :
    Partly text (rest.drop n) (file.map (· ++ rest.take n)) := by
  rcases h with ⟨rfl, rfl⟩ | ⟨written, rfl, htext⟩
  · exact .inl ⟨rfl, List.drop_nil⟩
  · refine .inr ⟨written ++ rest.take n, rfl, ?_⟩
    rw [List.append_assoc, List.take_append_drop, htext]

/-- A file that is there at the end has all of the text. -/
theorem Partly.whole {text : Bytes} {file : Option Bytes} (h : Partly text [] file) : file = none ∨ file = some text := by
  rcases h with ⟨hfile, -⟩ | ⟨written, hfile, htext⟩
  · exact .inl hfile
  · rw [List.append_nil] at htext
    exact .inr (htext ▸ hfile)

/-- The data file has what the register has. -/
def Agrees (codec : Codec V) (defaultValue : V) (dataPath : String) (m : Machine V) (t : Register.State V) : Prop :=
  match m.stage with
  | .dead | .constructing => t.held = none ∧ reads codec defaultValue dataPath m = some (t.stored.getD defaultValue)
  | .opening .clear => t.held = none ∧ t.stored.getD defaultValue = defaultValue ∧ m.files dataPath = none
  | .writing .clear rest => t.held = none ∧ t.stored.getD defaultValue = defaultValue ∧
    Partly (codec.dump defaultValue) rest (m.files dataPath)
  | .ready currentValue | .opening (.set _ currentValue) =>
    t = ⟨some currentValue, some currentValue⟩ ∧ reads codec defaultValue dataPath m = some currentValue
  | .writing (.set newValue currentValue) rest =>
    t = ⟨some currentValue, some currentValue⟩ ∧ reads codec defaultValue dataPath m = some currentValue ∧
      Partly (codec.dump newValue) rest (m.files (tmpPath dataPath m.pid))

theorem save_path_ne (newValue currentValue : V) (pid : Nat) :
    dataPath ≠ (Save.set newValue currentValue).path dataPath pid := (tmpPath_ne pid).symm

section Agrees

variable {t : Register.State V} {stored : Option V}

/-- An object is constructed on the file, or begins to make one. -/
theorem Agrees.construct (h : Agrees codec defaultValue dataPath m ⟨stored, none⟩) (hs : m.stage = .constructing) (opens : Bool) :
    (sees codec defaultValue dataPath m (.construct opens) = none ∧
      Agrees codec defaultValue dataPath (m.constructs codec dataPath opens) ⟨stored, none⟩) ∨
    ∃ o t', sees codec defaultValue dataPath m (.construct opens) = some o ∧ Register.Next defaultValue ⟨stored, none⟩ o t' ∧
      Agrees codec defaultValue dataPath (m.constructs codec dataPath opens) t' := by
  unfold Agrees at h
  rw [hs] at h
  obtain ⟨-, hreads⟩ := h
  cases hfile : m.files dataPath with
  | none =>
    rw [reads_none hfile] at hreads
    refine .inl ⟨by simp [sees, hfile], ?_⟩
    have hmade : m.constructs codec dataPath opens = { m with stage := .opening .clear } := by simp [constructs, hfile]
    rw [hmade]
    exact ⟨rfl, (Option.some.inj hreads).symm, hfile⟩
  | some text =>
    rw [reads_some hfile] at hreads
    cases opens with
    | true =>
      have hmade : m.constructs codec dataPath true = { m with stage := .ready (stored.getD defaultValue) } := by
        simp [constructs, hfile, hreads]
      refine .inr ⟨.opens (stored.getD defaultValue), _, by simp [sees, hfile, hreads], .opens stored, ?_⟩
      rw [hmade]
      exact ⟨rfl, (reads_some hfile).trans hreads⟩
    | false =>
      have hmade : m.constructs codec dataPath false = { m with stage := .dead } := by simp [constructs, hfile]
      refine .inr ⟨.dies, _, by simp [sees, hfile], .dies stored none, ?_⟩
      rw [hmade]
      exact ⟨rfl, (reads_some hfile).trans hreads⟩

/-- The end of `clear`, and of `setValue`. -/
theorem Agrees.closes {save : Save V} (h : Agrees codec defaultValue dataPath m t) (hs : m.stage = .writing save []) (renames : Bool) :
    (sees codec defaultValue dataPath m (.closes renames) = none ∧
      Agrees codec defaultValue dataPath (m.finishes defaultValue dataPath renames save) t) ∨
    ∃ o t', sees codec defaultValue dataPath m (.closes renames) = some o ∧ Register.Next defaultValue t o t' ∧
      Agrees codec defaultValue dataPath (m.finishes defaultValue dataPath renames save) t' := by
  unfold Agrees at h
  rw [hs] at h
  cases save with
  | clear =>
    obtain ⟨hheld, hstored, hpartly⟩ := h
    obtain ⟨stored, held⟩ := t
    subst hheld
    have hopens : Register.Next defaultValue ⟨stored, none⟩ _ _ := .opens stored
    rw [show stored.getD defaultValue = defaultValue from hstored] at hopens
    refine .inr ⟨.opens defaultValue, _, by simp [sees, hs], hopens, rfl, ?_⟩
    rcases hpartly.whole with hfile | hfile
    · exact reads_none hfile
    · exact (reads_some hfile).trans (codec.parse_dump defaultValue)
  | set newValue currentValue =>
    obtain ⟨rfl, hreads, hpartly⟩ := h
    unfold finishes
    dsimp only
    split
    · rename_i hrenames
      refine .inr ⟨.sets newValue, _, by simp only [sees, hs, if_pos hrenames], .sets _ currentValue newValue, rfl, ?_⟩
      have hwhole : m.files (tmpPath dataPath m.pid) = some (codec.dump newValue) := by
        refine hpartly.whole.resolve_left fun hnone => ?_
        rw [hnone] at hrenames
        cases hrenames
      have hfile : ((m.put dataPath (m.files (tmpPath dataPath m.pid))).put (tmpPath dataPath m.pid) none).files dataPath =
          some (codec.dump newValue) := (put_ne (tmpPath_ne m.pid).symm).trans (put_self.trans hwhole)
      exact (reads_some hfile).trans (codec.parse_dump newValue)
    · rename_i hrenames
      refine .inl ⟨by simp only [sees, hs, if_neg hrenames], rfl, ?_⟩
      exact (reads_of (put_ne (tmpPath_ne m.pid).symm)).trans hreads

/-- The process is killed. -/
theorem Agrees.killed (h : Agrees codec defaultValue dataPath m t) (hc : m.Careful dataPath .killed) :
    Agrees codec defaultValue dataPath { m with stage := .dead } ⟨t.stored, none⟩ := by
  refine ⟨rfl, ?_⟩
  unfold Agrees at h
  have hreads : reads codec defaultValue dataPath m = some (t.stored.getD defaultValue) := by
    cases hs : m.stage with
    | dead | constructing => rw [hs] at h; exact h.2
    | ready currentValue => rw [hs] at h; obtain ⟨rfl, hreads⟩ := h; exact hreads
    | opening save =>
      rw [hs] at h
      cases save with
      | clear => rw [reads_none h.2.2]; exact congrArg some h.2.1.symm
      | set newValue currentValue => obtain ⟨rfl, hreads⟩ := h; exact hreads
    | writing save rest =>
      rw [hs] at h
      cases save with
      | clear =>
        obtain ⟨-, hstored, hpartly⟩ := h
        rw [hc rest hs] at hpartly
        rw [show t.stored.getD defaultValue = defaultValue from hstored]
        rcases hpartly.whole with hfile | hfile
        · exact reads_none hfile
        · exact (reads_some hfile).trans (codec.parse_dump defaultValue)
      | set newValue currentValue => obtain ⟨rfl, hreads, -⟩ := h; exact hreads
  exact hreads

/-- The register does what is seen of each move. -/
theorem simulates : Simulates (Under (Moves codec defaultValue dataPath) (Careful dataPath)) (Register.Next defaultValue)
    (sees codec defaultValue dataPath) (Agrees codec defaultValue dataPath) := by
  intro m move m' t h hn
  obtain ⟨hmove, hc⟩ := hn
  cases moved hmove with
  | starts pid hs => 
    unfold Agrees at h
    rw [hs] at h
    exact .inl ⟨rfl, h⟩
  | construct opens hs =>
    have hheld : t.held = none := by
      unfold Agrees at h
      rw [hs] at h
      exact h.1
    obtain ⟨stored, held⟩ := t
    subst hheld
    exact h.construct hs opens
  | setValue newValue currentValue hs =>
    unfold Agrees at h
    rw [hs] at h
    exact .inl ⟨rfl, h⟩
  | opens save hs =>
    unfold Agrees at h
    rw [hs] at h
    refine .inl ⟨rfl, ?_⟩
    cases save with
    | clear =>
      obtain ⟨hheld, hstored, -⟩ := h
      exact ⟨hheld, hstored, .inr ⟨[], put_self, rfl⟩⟩
    | set newValue currentValue =>
      obtain ⟨ht, hreads⟩ := h
      exact ⟨ht, (reads_of (put_ne (save_path_ne newValue currentValue m.pid))).trans hreads, .inr ⟨[], put_self, rfl⟩⟩
  | opensNot save hs =>
    unfold Agrees at h
    rw [hs] at h
    refine .inl ⟨rfl, ?_⟩
    cases save with
    | clear =>
      obtain ⟨hheld, hstored, hfile⟩ := h
      exact ⟨hheld, hstored, .inl ⟨hfile, rfl⟩⟩
    | set newValue currentValue =>
      obtain ⟨ht, hreads⟩ := h
      exact ⟨ht, hreads, .inl ⟨hc rfl newValue currentValue hs, rfl⟩⟩
  | writes save rest n hs =>
    unfold Agrees at h
    rw [hs] at h
    refine .inl ⟨rfl, ?_⟩
    cases save with
    | clear =>
      obtain ⟨hheld, hstored, hpartly⟩ := h
      refine ⟨hheld, hstored, ?_⟩
      rw [show (Save.clear : Save V).path dataPath m.pid = dataPath from rfl]
      exact put_self (m := m) ▸ hpartly.writes n
    | set newValue currentValue =>
      obtain ⟨ht, hreads, hpartly⟩ := h
      refine ⟨ht, (reads_of (put_ne (save_path_ne newValue currentValue m.pid))).trans hreads, ?_⟩
      exact put_self (m := m) ▸ hpartly.writes n
  | writesNot save rest hs => cases hc
  | closes save renames hs => exact h.closes hs renames
  | killed => exact .inr ⟨.dies, _, rfl, .dies t.stored t.held, h.killed hc⟩

end Agrees

/-- A launchd that is killed between any two system calls, and started again, as often as may be:
    every launchd finds in the state file the document that was set last, by whichever of them.
    A `setValue` that was cut off has changed nothing. -/
theorem durable {events : List (Register.Event V)} (h : Trace (Starts codec dataPath first)
    (Under (Moves codec defaultValue dataPath) (Careful dataPath)) (sees codec defaultValue dataPath) m events) :
    (∃ t, Behaves (fun t => t = ⟨first, none⟩) (Register.Next defaultValue) t events) ∧
      ∀ before value after, events = before ++ .opens value :: after →
        value = Register.last (first.getD defaultValue) before := by
  have hsim : ∃ t, Behaves (fun t => t = ⟨first, none⟩) (Register.Next defaultValue) t events ∧
      Agrees codec defaultValue dataPath m t := by
    refine Trace.simulated (fun m hi => ?_) simulates h
    obtain ⟨hs, hfile⟩ := hi
    refine ⟨⟨first, none⟩, rfl, ?_⟩
    unfold Agrees
    rw [hs]
    cases first with
    | none => exact ⟨rfl, reads_none hfile⟩
    | some value =>
      obtain ⟨text, hfile, hparse⟩ := hfile
      exact ⟨rfl, (reads_some hfile).trans hparse⟩
  obtain ⟨t, ht, -⟩ := hsim
  exact ⟨⟨t, ht⟩, (Register.opens_last ht).2⟩

def nothing : Machine Nat := ⟨fun _ => none, 0, .dead⟩

theorem nothing_starts : Starts Codec.letters "state.json" none nothing := ⟨rfl, rfl⟩

def unfailing (_ : Machine Nat) : Move Nat → Bool
  | .opens succeeds => succeeds
  | .writes bytes => bytes.isSome
  | .starts _ | .construct _ | .setValue _ | .closes _ | .killed => true

theorem of_unfailing {m : Machine Nat} {move : Move Nat} (h : unfailing m move) : m.Unfailing move := by
  cases move with
  | opens succeeds | writes bytes => exact h
  | starts | construct | setValue | closes | killed => trivial

def careful (m : Machine Nat) : Move Nat → Bool
  | .killed => match m.stage with
    | .writing .clear _ => false
    | _ => true
  | move => unfailing m move

theorem of_careful {m : Machine Nat} {move : Move Nat} (h : careful m move) : m.Careful "state.json" move := by
  cases move with
  | opens succeeds => exact fun hno => absurd (hno.symm.trans h) Bool.false_ne_true
  | writes bytes => exact h
  | killed =>
    intro rest hs
    rw [careful, hs] at h
    cases h
  | starts | construct | setValue | closes => trivial

/-- A launchd changes the document and begins to change it again when it is killed; the next one,
    with the same process id, finds the first change. -/
theorem durable_killed : ∃ events : List (Register.Event Nat),
    events = [.opens 0, .sets 1, .dies, .opens 1] ∧
    (∃ t, Behaves (fun t => t = ⟨none, none⟩) (Register.Next 0) t events) ∧
      ∀ before value after, events = before ++ .opens value :: after →
        value = Register.last ((none : Option Nat).getD 0) before := by
  have hwatch : (watch (step Codec.letters 0 "state.json") careful (sees Codec.letters 0 "state.json") nothing
      [.starts 1, .construct true, .opens true, .writes (some 2), .closes true, .setValue 1, .opens true, .writes (some 1),
        .writes (some 2), .closes true, .setValue 2, .opens true, .writes (some 1), .killed, .starts 1, .construct true]).any
      fun r => r.2 = [.opens 0, .sets 1, .dies, .opens 1] := by decide +kernel
  obtain ⟨⟨m, events⟩, hm, hevents⟩ := (Option.any_eq_true _ _).mp hwatch
  have htrace := trace_of_watch (fun _ _ => of_careful) (.init nothing_starts) hm
  exact ⟨events, of_decide_eq_true hevents, durable htrace⟩

/-! ## Killed while the file is made -/

/-- Nobody gets past the constructor. -/
def Stuck (codec : Codec V) (defaultValue : V) (dataPath : String) (m : Machine V) : Prop :=
  Torn codec defaultValue dataPath m ∧ (m.stage = .dead ∨ m.stage = .constructing)

section Stuck

variable (hcut : ∀ n < (codec.dump defaultValue).length, codec.parse ((codec.dump defaultValue).take n) = none)

include hcut

theorem Stuck.next (h : Stuck codec defaultValue dataPath m) (hn : Moves codec defaultValue dataPath m move m') :
    Stuck codec defaultValue dataPath m' := by
  obtain ⟨htorn, hs⟩ := h
  cases moved hn with
  | starts pid _ => exact ⟨htorn, .inr rfl⟩
  | killed => exact ⟨htorn, .inl rfl⟩
  | construct opens _ =>
    obtain ⟨n, hlt, hfile⟩ := htorn
    have hmade : m.constructs codec dataPath opens = { m with stage := .dead } := by
      cases opens <;> simp [constructs, hfile, hcut n hlt]
    rw [hmade]
    exact ⟨⟨n, hlt, hfile⟩, .inl rfl⟩
  | setValue _ _ hs' | opens _ hs' | opensNot _ hs' | writes _ _ _ hs' | writesNot _ _ hs' | closes _ _ hs' =>
    rw [hs'] at hs
    rcases hs with hs | hs <;> cases hs

theorem Stuck.later (h : Stuck codec defaultValue dataPath m) (hl : Later (Moves codec defaultValue dataPath) m m') :
    Stuck codec defaultValue dataPath m' := by
  induction hl with
  | refl => exact h
  | tail _ hn ih =>
    obtain ⟨move, hn⟩ := hn
    exact ih.next hcut hn

end Stuck

/-- A kill is what tears the file, if anything does. -/
theorem Agrees.killed_or_torn {t : Register.State V} (h : Agrees codec defaultValue dataPath m t) :
    m.Careful dataPath .killed ∨ Stuck codec defaultValue dataPath { m with stage := .dead } := by
  by_cases hc : ∀ rest, m.stage = .writing .clear rest → rest = []
  · exact .inl hc
  · push Not at hc
    obtain ⟨rest, hs, hrest⟩ := hc
    unfold Agrees at h
    rw [hs] at h
    obtain ⟨-, -, hpartly⟩ := h
    rcases hpartly with ⟨-, hnil⟩ | ⟨written, hfile, htext⟩
    · exact absurd hnil hrest
    · refine .inr ⟨⟨written.length, ?_, ?_⟩, .inl rfl⟩
      · rw [← htext, List.length_append]
        have hpos := List.length_pos_of_ne_nil hrest
        omega
      · rw [← htext, List.take_left]
        exact hfile

theorem agrees_or_stuck (hcut : ∀ n < (codec.dump defaultValue).length, codec.parse ((codec.dump defaultValue).take n) = none)
    (h : Reach (Starts codec dataPath first) (Under (Moves codec defaultValue dataPath) Unfailing) m) :
    (∃ t, Agrees codec defaultValue dataPath m t) ∨ Stuck codec defaultValue dataPath m := by
  refine h.invariant (P := fun m => (∃ t, Agrees codec defaultValue dataPath m t) ∨ Stuck codec defaultValue dataPath m)
    (fun m hi => ?_) fun m move m' hp hn => ?_
  · obtain ⟨hs, hfile⟩ := hi
    refine .inl ⟨⟨first, none⟩, ?_⟩
    unfold Agrees
    rw [hs]
    cases first with
    | none => exact ⟨rfl, reads_none hfile⟩
    | some value =>
      obtain ⟨text, hfile, hparse⟩ := hfile
      exact ⟨rfl, (reads_some hfile).trans hparse⟩
  · obtain ⟨hmove, hok⟩ := hn
    rcases hp with ⟨t, ht⟩ | hstuck
    · have hcareful : m.Careful dataPath move ∨ Stuck codec defaultValue dataPath m' := by
        cases move with
        | killed => cases hmove; exact ht.killed_or_torn
        | opens succeeds => exact .inl fun hno => absurd (hno.symm.trans hok) Bool.false_ne_true
        | writes bytes => exact .inl hok
        | starts pid | construct opens | setValue value | closes renames => exact .inl trivial
      rcases hcareful with hc | hstuck
      · rcases simulates m move m' t ht ⟨hmove, hc⟩ with ⟨-, h'⟩ | ⟨o, t', -, -, h'⟩
        · exact .inl ⟨t, h'⟩
        · exact .inl ⟨t', h'⟩
      · exact .inr hstuck
    · exact .inr (hstuck.next hcut hmove)

/-- A launchd that nobody disturbs gets its document. -/
theorem restarts_of_reads {value : V} (hd : m.stage = .dead) (h : reads codec defaultValue dataPath m = some value) :
    ∃ m', Later (Moves codec defaultValue dataPath) m m' ∧ m'.stage = .ready value := by
  have hstarts : Moves codec defaultValue dataPath m (.starts m.pid) { m with stage := .constructing } := by
    simp [Moves, step, hd]
  cases hfile : m.files dataPath with
  | some text =>
    rw [reads_some hfile] at h
    have hmade : Moves codec defaultValue dataPath { m with stage := .constructing } (.construct true)
        { m with stage := .ready value } := by
      simp [Moves, step, constructs, hfile, h]
    exact ⟨_, (Relation.ReflTransGen.single ⟨_, hstarts⟩).tail ⟨_, hmade⟩, rfl⟩
  | none =>
    rw [reads_none hfile] at h
    cases h
    have hmade : Moves codec defaultValue dataPath { m with stage := .constructing } (.construct true)
        { m with stage := .opening .clear } := by
      simp [Moves, step, constructs, hfile]
    obtain ⟨n, hn⟩ : ∃ n : Machine V, n = { m.put dataPath (some []) with
      stage := .writing .clear (codec.dump defaultValue) } := ⟨_, rfl⟩
    have hopened : Moves codec defaultValue dataPath { m with stage := .opening .clear } (.opens true) n := by rw [hn]; rfl
    obtain ⟨w, hw⟩ : ∃ w : Machine V, w = { n.put dataPath ((n.files dataPath).map (· ++ codec.dump defaultValue)) with
      stage := .writing .clear [] } := ⟨_, rfl⟩
    have hwritten : Moves codec defaultValue dataPath n (.writes (some (codec.dump defaultValue).length)) w := by
      simp [Moves, step, hw, hn, Save.path]
    have hclosed : Moves codec defaultValue dataPath w (.closes true) { w with stage := .ready defaultValue } := by
      simp [Moves, step, hw, finishes]
    refine ⟨{ w with stage := .ready defaultValue }, ?_, rfl⟩
    exact .head ⟨_, hstarts⟩ (.head ⟨_, hmade⟩ (.head ⟨_, hopened⟩ (.head ⟨_, hwritten⟩ (.single ⟨_, hclosed⟩))))

/-- After kills at whatever points, a launchd can start if and only if none of them came while the
    file was made and a part of the default was in it; else no launchd ever starts again. -/
theorem starts_again_iff (hcut : ∀ n < (codec.dump defaultValue).length, codec.parse ((codec.dump defaultValue).take n) = none)
    (h : Reach (Starts codec dataPath first) (Under (Moves codec defaultValue dataPath) Unfailing) m) (hd : m.stage = .dead) :
    (∃ m' value, Later (Moves codec defaultValue dataPath) m m' ∧ m'.stage = .ready value) ↔
      ¬ Torn codec defaultValue dataPath m := by
  constructor
  · intro h' htorn
    obtain ⟨m', value, hlater, hready⟩ := h'
    have hstuck : Stuck codec defaultValue dataPath m := ⟨htorn, .inl hd⟩
    rcases (hstuck.later hcut hlater).2 with hs | hs <;> rw [hready] at hs <;> cases hs
  · intro hwhole
    rcases agrees_or_stuck hcut h with ⟨t, ht⟩ | hstuck
    · unfold Agrees at ht
      rw [hd] at ht
      obtain ⟨m', hlater, hready⟩ := restarts_of_reads hd ht.2
      exact ⟨m', _, hlater, hready⟩
    · exact absurd hstuck.1 hwhole

/-- A launchd without a state file is killed when one byte of the default is written. -/
theorem starts_again_torn : ∃ m : Machine Nat, m.stage = .dead ∧ Torn Codec.letters 0 "state.json" m ∧
    ((∃ m' value, Later (Moves Codec.letters 0 "state.json") m m' ∧ m'.stage = .ready value) ↔
      ¬ Torn Codec.letters 0 "state.json" m) := by
  have hwatch : (watch (step Codec.letters 0 "state.json") unfailing (sees Codec.letters 0 "state.json") nothing
      [.starts 1, .construct true, .opens true, .writes (some 1), .killed]).any
      fun r => r.1.stage = .dead ∧ r.1.files "state.json" = some [34] := by decide +kernel
  obtain ⟨⟨m, events⟩, hm, hleft⟩ := (Option.any_eq_true _ _).mp hwatch
  obtain ⟨hdead, hfile⟩ := of_decide_eq_true hleft
  have htrace := trace_of_watch (fun _ _ => of_unfailing) (.init nothing_starts) hm
  have hcut : ∀ n < (Codec.letters.dump 0).length, Codec.letters.parse ((Codec.letters.dump 0).take n) = none := by decide
  exact ⟨m, hdead, ⟨1, by decide, hfile⟩, starts_again_iff hcut htrace.reach hdead⟩

/-! ## The calls of one process -/

/-- What is in a file on the way from the old to the text, and what is still to be written. -/
def Put (w : Writing) (text rest : Bytes) (old file : Option Bytes) : Prop :=
  file = w.result text old ∧ (rest = [] ∨ w.opens ∧ rest = text.drop w.bytes)

theorem Put.writes {w : Writing} {text rest : Bytes} {old file : Option Bytes} (h : Put w text rest old file) (n : Nat) :
    Put { w with bytes := w.bytes + (rest.take n).length } text (rest.drop n) old (file.map (· ++ rest.take n)) := by
  obtain ⟨rfl, rfl | ⟨ho, rfl⟩⟩ := h
  · refine ⟨?_, .inl List.drop_nil⟩
    have hsame : (fun text : Bytes => text ++ ([] : Bytes).take n) = id := by
      funext text
      rw [List.take_nil, List.append_nil, id]
    rw [hsame, Option.map_id, List.take_nil]
    rfl
  · have htake : (text.drop w.bytes).take ((text.drop w.bytes).take n).length = (text.drop w.bytes).take n := by
      rw [List.length_take, ← List.take_take, List.take_length]
    refine ⟨?_, ?_⟩
    · simp only [Writing.result, ho, if_pos, Option.map_some]
      rw [List.take_add, htake]
    · by_cases hn : n ≤ (text.drop w.bytes).length
      · refine .inr ⟨ho, ?_⟩
        rw [List.drop_drop, List.length_take, Nat.min_eq_left hn]
      · exact .inl (List.drop_of_length_le (Nat.le_of_not_le hn))

theorem Put.fails {w : Writing} {text rest : Bytes} {old file : Option Bytes} (h : Put w text rest old file) :
    Put w text [] old file := ⟨h.1, .inl rfl⟩

section Life

variable {life : Life V}

open Life

theorem left_calls (c : Call V) : ({ life with calls := life.calls ++ [c] } : Life V).left codec defaultValue =
    after codec defaultValue (life.left codec defaultValue) c := by
  rw [left, left, List.foldl_append]
  rfl

/-- What the calls up to now have left, and how far the one that has begun is. -/
def Called (codec : Codec V) (defaultValue : V) (dataPath : String) (m : Machine V) (life : Life V) : Prop :=
  let d := life.left codec defaultValue
  match m.stage with
  | .dead => True
  | .constructing => d = m.disk dataPath none
  | .opening .clear => d = m.disk dataPath none ∧ d.data = none
  | .writing .clear rest => d = ⟨none, m.files (tmpPath dataPath m.pid), none⟩ ∧
    Put life.writing (codec.dump defaultValue) rest none (m.files dataPath)
  | .ready currentValue | .opening (.set _ currentValue) => d = m.disk dataPath (some currentValue)
  | .writing (.set newValue currentValue) rest => d.data = m.files dataPath ∧ d.currentValue = some currentValue ∧
    Put life.writing (codec.dump newValue) rest d.tmp (m.files (tmpPath dataPath m.pid))

/-- A call that ends does so as the call does. -/
theorem Called.closes {save : Save V} (h : Called codec defaultValue dataPath m life) (hs : m.stage = .writing save [])
    (renames : Bool) : Called codec defaultValue dataPath (m.finishes defaultValue dataPath renames save)
      (note dataPath m (.closes renames) life) := by
  unfold Called at h
  unfold note
  rw [hs] at h ⊢
  cases save with
  | clear =>
    obtain ⟨hleft, hfile, -⟩ := h
    show ({ life with calls := life.calls ++ [.construct true life.writing] } : Life V).left codec defaultValue = _
    rw [left_calls, hleft]
    show (⟨life.writing.result (codec.dump defaultValue) none, _, some defaultValue⟩ : Disk V) = _
    rw [← hfile]
    rfl
  | set newValue currentValue =>
    obtain ⟨hdata, hvalue, hfile, -⟩ := h
    have hd : life.left codec defaultValue =
        ⟨m.files dataPath, (life.left codec defaultValue).tmp, some currentValue⟩ := by rw [← hdata, ← hvalue]
    have hcall := @writeValue_eq V codec (life.left codec defaultValue) life.writing newValue renames
    rw [← hfile] at hcall
    have hleft := @left_calls V codec defaultValue life (.setValue newValue life.writing renames)
    unfold after call at hleft
    dsimp only at hleft
    rw [hcall] at hleft
    have hne : dataPath ≠ tmpPath dataPath m.pid := (tmpPath_ne m.pid).symm
    unfold finishes
    dsimp only
    split
    · rename_i hrenames
      rw [if_pos hrenames] at hleft
      show ({ life with calls := life.calls ++ [.setValue newValue life.writing renames] } : Life V).left codec defaultValue =
        ⟨((m.put dataPath _).put _ none).files dataPath, ((m.put dataPath _).put _ none).files (tmpPath dataPath m.pid),
          some newValue⟩
      rw [hleft, put_ne hne, put_self, put_self]
    · rename_i hrenames
      rw [if_neg hrenames] at hleft
      show ({ life with calls := life.calls ++ [.setValue newValue life.writing renames] } : Life V).left codec defaultValue =
        ⟨(m.put _ none).files dataPath, (m.put _ none).files (tmpPath dataPath m.pid), some currentValue⟩
      rw [hleft, put_ne hne, put_self, hdata, hvalue]

theorem Called.constructed (h : Called codec defaultValue dataPath m life) (hs : m.stage = .constructing) (opens : Bool) :
    Called codec defaultValue dataPath (m.constructs codec dataPath opens) (note dataPath m (.construct opens) life) := by
  unfold Called at h
  unfold note
  rw [hs] at h
  cases hfile : m.files dataPath with
  | none =>
    have hmade : m.constructs codec dataPath opens = { m with stage := .opening .clear } := by simp [constructs, hfile]
    rw [hmade]
    exact ⟨h, by rw [h]; exact hfile⟩
  | some text =>
    have hcall : after codec defaultValue (m.disk dataPath none) (.construct opens ⟨false, 0⟩) =
        m.disk dataPath (if opens then codec.parse text else none) := by
      simp only [after, StateFile.call, StateFile.construct, Prog.get_bind, disk, hfile]
      cases (if opens then codec.parse text else none) <;> rfl
    have hleft := @left_calls V codec defaultValue life (.construct opens ⟨false, 0⟩)
    rw [h, hcall] at hleft
    cases hparse : (if opens then codec.parse text else none) with
    | none =>
      have hmade : m.constructs codec dataPath opens = { m with stage := .dead } := by simp [constructs, hfile, hparse]
      rw [hmade]
      trivial
    | some value =>
      have hmade : m.constructs codec dataPath opens = { m with stage := .ready value } := by
        simp [constructs, hfile, hparse]
      rw [hparse] at hleft
      rw [hmade]
      exact hleft

theorem Called.next (h : Called codec defaultValue dataPath m life) (hn : Moves codec defaultValue dataPath m move m') :
    Called codec defaultValue dataPath m' (note dataPath m move life) := by
  cases moved hn with
  | starts pid hs => exact rfl
  | killed => trivial
  | closes save renames hs => exact h.closes hs renames
  | construct opens hs => exact h.constructed hs opens
  | setValue newValue currentValue hs =>
    unfold Called at h
    rw [hs] at h
    exact h
  | opens save hs =>
    unfold Called at h
    rw [hs] at h
    cases save with
    | clear =>
      obtain ⟨hleft, hnone⟩ := h
      refine ⟨?_, put_self, .inr ⟨rfl, rfl⟩⟩
      show life.left codec defaultValue = ⟨none, (m.put dataPath _).files (tmpPath dataPath m.pid), none⟩
      have hfile : m.files dataPath = none := by rw [← hnone, hleft]; rfl
      rw [put_ne (tmpPath_ne m.pid), hleft, disk, hfile]
    | set newValue currentValue =>
      have hdata : (life.left codec defaultValue).data = m.files dataPath := by rw [h]; rfl
      have hvalue : (life.left codec defaultValue).currentValue = some currentValue := by rw [h]; rfl
      refine ⟨?_, hvalue, put_self, .inr ⟨rfl, rfl⟩⟩
      exact hdata.trans (put_ne (save_path_ne newValue currentValue m.pid)).symm
  | opensNot save hs =>
    unfold Called at h
    rw [hs] at h
    cases save with
    | clear =>
      obtain ⟨hleft, hnone⟩ := h
      have hfile : m.files dataPath = none := by rw [← hnone, hleft]; rfl
      refine ⟨?_, hfile, .inl rfl⟩
      show life.left codec defaultValue = ⟨none, _, none⟩
      rw [hleft, disk, hfile]
    | set newValue currentValue =>
      have hdata : (life.left codec defaultValue).data = m.files dataPath := by rw [h]; rfl
      have htmp : (life.left codec defaultValue).tmp = m.files (tmpPath dataPath m.pid) := by rw [h]; rfl
      have hvalue : (life.left codec defaultValue).currentValue = some currentValue := by rw [h]; rfl
      exact ⟨hdata, hvalue, htmp.symm, .inl rfl⟩
  | writes save rest n hs =>
    unfold Called at h
    unfold note
    rw [hs] at h ⊢
    cases save with
    | clear =>
      obtain ⟨hleft, hput⟩ := h
      refine ⟨?_, put_self (m := m) ▸ hput.writes n⟩
      show life.left codec defaultValue = ⟨none, (m.put dataPath _).files (tmpPath dataPath m.pid), none⟩
      rw [put_ne (tmpPath_ne m.pid)]
      exact hleft
    | set newValue currentValue =>
      obtain ⟨hdata, hvalue, hput⟩ := h
      refine ⟨?_, hvalue, put_self (m := m) ▸ hput.writes n⟩
      exact hdata.trans (put_ne (save_path_ne newValue currentValue m.pid)).symm
  | writesNot save rest hs =>
    unfold Called at h
    rw [hs] at h
    cases save with
    | clear => exact ⟨h.1, h.2.fails⟩
    | set newValue currentValue => exact ⟨h.1, h.2.1, h.2.2.fails⟩

/-- What a launchd that is in no call has on disk and in its object is what the calls it has made
    leave of what it found, each of them taken as a whole, with as many bytes written. -/
theorem calls_of_process {currentValue : V}
    (h : Noted (Starts codec dataPath first) (Moves codec defaultValue dataPath) (note dataPath) {} m life)
    (hs : m.stage = .ready currentValue) : life.left codec defaultValue = m.disk dataPath (some currentValue) := by
  have hcalled : Called codec defaultValue dataPath m life := by
    refine h.invariant (fun m hi => ?_) fun m life move m' _ hc hn => hc.next hn
    unfold Called
    rw [hi.1]
    trivial
  unfold Called at hcalled
  rw [hs] at hcalled
  exact hcalled

/-- A launchd is killed in a `setValue`. The next one sets a value, and then the disk is full:
    one byte of another value is written, and that file is moved over the data file. -/
theorem calls_of_process_full : ∃ (m : Machine Nat) (life : Life Nat), m.stage = .ready 2 ∧
    life.found.data = some (Codec.letters.dump 0) ∧ life.calls.length = 3 ∧ m.files "state.json" = some [34] ∧
    life.left Codec.letters 0 = m.disk "state.json" (some 2) := by
  have hp : (record (step Codec.letters 0 "state.json") (note "state.json") nothing {}
      [.starts 1, .construct true, .opens true, .writes (some 2), .closes true, .setValue 1, .opens true, .writes (some 1), .killed,
        .starts 2, .construct true, .setValue 1, .opens true, .writes (some 3), .closes true,
        .setValue 2, .opens true, .writes (some 1), .writes none, .closes true]).any
      fun r => r.1.stage = .ready 2 ∧ r.2.found.data = some (Codec.letters.dump 0) ∧ r.2.calls.length = 3 ∧
        r.1.files "state.json" = some [34] := by decide +kernel
  obtain ⟨⟨m, life⟩, hr, hp⟩ := (Option.any_eq_true _ _).mp hp
  obtain ⟨hready, hfound, hcalls, hfile⟩ := of_decide_eq_true hp
  exact ⟨m, life, hready, hfound, hcalls, hfile, calls_of_process (noted_of_record (.init nothing_starts) hr) hready⟩

end Life

end Machine

end StateFile

end Relaunchd
