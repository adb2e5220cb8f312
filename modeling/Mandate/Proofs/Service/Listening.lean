import Mandate.Proofs.Engine.Collision
import Mandate.Proofs.Service.Publishing

/-!
# A receiver of transitions

Every record is announced on a channel.  A receiver that is there from the beginning takes what has
been sent whenever it likes; calls, pushed news and the receiver take turns in any order.  The channel
is any one that keeps records in order, and may tell its receiver that it has lost some because it
was too slow.  As long as that does not happen, the receiver hears the log of the engine.

Main results:

- Definitions `Broadcast`, `Broadcast.KeepsOrder`: a channel, and what it promises to its receiver.
- Definitions `Listening`, `Listening.Step`: the service with a receiver, and what can happen.
- Theorem `Listening.Reaches.exists_waiting`: what has been announced has been heard, or waits.
- Theorem `Listening.heard_in_order`: the records that have been heard, and the histories.
- Theorem `Listening.heard_forgotten`: a record that has been heard may be in no history, if two
  constraints share their identity.
-/

namespace Mandate

/-! ## Channels -/

/-- What a receiver gets from its channel. -/
inductive Receipt
  | record (r : ActivationRecord)
  /-- The receiver was too slow, and has missed some records. -/
  | lagged (missed : Nat)

/-- A channel of records with one receiver. -/
structure Broadcast where
  State : Type
  opened : State
  send : State → ActivationRecord → State
  /-- The receiver takes what comes next, if something is there. -/
  receive : State → State × Option Receipt

namespace Broadcast

/-- The receiver gets the records in the order in which they are sent, each once, unless it is told
that it has missed some.  `Waits s records` says that these records have been sent and the receiver
has not got to them yet. -/
structure KeepsOrder (b : Broadcast) (Waits : b.State → List ActivationRecord → Prop) : Prop where
  opened : Waits b.opened []
  send : ∀ {s : b.State} {records : List ActivationRecord} (r : ActivationRecord),
    Waits s records → Waits (b.send s r) (records ++ [r])
  empty : ∀ {s : b.State}, Waits s [] → (b.receive s).2 = none ∧ Waits (b.receive s).1 []
  next : ∀ {s : b.State} {r : ActivationRecord} {rest : List ActivationRecord}, Waits s (r :: rest) →
    ((b.receive s).2 = some (.record r) ∧ Waits (b.receive s).1 rest) ∨
      ∃ missed, (b.receive s).2 = some (.lagged missed)

section KeepsOrder

variable {b : Broadcast} {Waits : b.State → List ActivationRecord → Prop} {s : b.State}
  {rest : List ActivationRecord}

theorem KeepsOrder.sends (h : b.KeepsOrder Waits) (hs : Waits s rest)
    (more : List ActivationRecord) : Waits (more.foldl b.send s) (rest ++ more) := by
  induction more generalizing s rest with
  | nil => rwa [List.append_nil]
  | cons r more ih =>
    rw [List.append_cons]
    exact ih (h.send r hs)

theorem KeepsOrder.receive_eq_none_iff (h : b.KeepsOrder Waits) (hs : Waits s rest) :
    (b.receive s).2 = none ↔ rest = [] := by
  cases rest with
  | nil => exact iff_of_true (h.empty hs).1 rfl
  | cons r rest =>
    refine iff_of_false ?_ (List.cons_ne_nil r rest)
    rcases h.next hs with ⟨hnext, -⟩ | ⟨missed, hmissed⟩
    · rw [hnext]
      exact Option.some_ne_none _
    · rw [hmissed]
      exact Option.some_ne_none _

/-- A record that is received is the oldest one that waits. -/
theorem KeepsOrder.head_of_receive (h : b.KeepsOrder Waits) (hs : Waits s rest)
    {r : ActivationRecord} (hr : (b.receive s).2 = some (.record r)) : rest.head? = some r := by
  cases rest with
  | nil =>
    rw [(h.empty hs).1] at hr
    cases hr
  | cons r' rest =>
    rcases h.next hs with ⟨hnext, -⟩ | ⟨missed, hmissed⟩
    · rw [hnext, Option.some.injEq, Receipt.record.injEq] at hr
      rw [← hr]
      rfl
    · rw [hmissed] at hr
      cases hr

end KeepsOrder

/-! ### A channel with bounded room -/

/-- What the receiver has not taken, the oldest record in front, and how many older ones it has
missed. -/
structure Ring where
  kept : List ActivationRecord := []
  missed : Nat := 0

/-- A channel that has room for some records, and drops the oldest one for each that is too many. -/
def bounded (room : Nat) : Broadcast where
  State := Ring
  opened := {}
  send s r :=
    if s.kept.length < room then { s with kept := s.kept ++ [r] }
    else ⟨(s.kept ++ [r]).tail, s.missed + 1⟩
  receive s :=
    if 0 < s.missed then ({ s with missed := 0 }, some (.lagged s.missed))
    else
      match s.kept with
      | [] => (s, none)
      | r :: kept => ({ s with kept }, some (.record r))

/-- The records are there, or more of them have been sent than there is room for. -/
def Ring.Holds (room : Nat) (s : Ring) (records : List ActivationRecord) : Prop :=
  (s.missed = 0 ∧ s.kept = records) ∨ (0 < s.missed ∧ room < records.length)

theorem keepsOrder_bounded (room : Nat) : (bounded room).KeepsOrder (Ring.Holds room) where
  opened := Or.inl ⟨rfl, rfl⟩
  send {s records} r hs := by
    have hlength : (records ++ [r]).length = records.length + 1 := List.length_append
    rcases hs with ⟨hmissed, rfl⟩ | ⟨hmissed, hroom⟩
    · by_cases hroom : s.kept.length < room
      · exact Or.inl (by simp [bounded, hroom, hmissed])
      · refine Or.inr ?_
        simp only [bounded, if_neg hroom, hlength]
        omega
    · refine Or.inr ⟨?_, by omega⟩
      simp only [bounded]
      split
      · exact hmissed
      · exact Nat.succ_pos _
  empty {s} hs := by
    rcases hs with ⟨hmissed, hkept⟩ | ⟨-, hroom⟩
    · simp [bounded, Ring.Holds, hmissed, hkept]
    · exact (Nat.not_lt_zero _ hroom).elim
  next {s r rest} hs := by
    rcases hs with ⟨hmissed, hkept⟩ | ⟨hmissed, -⟩
    · exact Or.inl (by simp [bounded, Ring.Holds, hmissed, hkept])
    · exact Or.inr ⟨s.missed, by simp [bounded, hmissed]⟩

/-- As long as there is room, nothing is missed. -/
theorem receive_bounded {room : Nat} {s : Ring} {r : ActivationRecord}
    {rest : List ActivationRecord} (hs : s.Holds room (r :: rest))
    (hroom : (r :: rest).length ≤ room) :
    (bounded room).receive s = (⟨rest, 0⟩, some (.record r)) := by
  rcases hs with ⟨hmissed, hkept⟩ | ⟨-, hfull⟩
  · simp [bounded, hmissed, hkept]
  · omega

end Broadcast

/-! ## A service with a receiver -/

/-- The service and its calls, the channel on which records are announced, and what its receiver has
got so far. -/
structure Listening (b : Broadcast) where
  traffic : Traffic
  channel : b.State := b.opened
  heard : List Receipt := []

namespace Listening

variable {b : Broadcast}

/-- Nothing has happened yet, and the receiver is there. -/
def start (b : Broadcast) (config : EngineConfig) : Listening b where
  traffic := .start config

/-- Something has happened to the service, and what it has announced is sent. -/
def serve (l : Listening b) (after : Traffic) : Listening b :=
  { l with
    traffic := after
    channel :=
      (after.service.announced.drop l.traffic.service.announced.length).foldl b.send l.channel }

/-- The receiver takes what comes next. -/
def receive (l : Listening b) : Listening b :=
  { l with
    channel := (b.receive l.channel).1
    heard := l.heard ++ (b.receive l.channel).2.toList }

/-- What can happen next. -/
inductive Step (l : Listening b) : Listening b → Prop
  | served {after : Traffic} (h : l.traffic.Step after) : Step l (l.serve after)
  | received : Step l l.receive

/-- The second state may come after the first one. -/
def Reaches : Listening b → Listening b → Prop :=
  Relation.ReflTransGen Step

/-- The receiver has never been too slow. -/
def NeverLagged (l : Listening b) : Prop :=
  ∀ missed, .lagged missed ∉ l.heard

variable {Waits : b.State → List ActivationRecord → Prop} {config : EngineConfig}
  {l after : Listening b}

theorem neverLagged_of_heard (records : List ActivationRecord)
    (hheard : l.heard = records.map .record) : l.NeverLagged := by
  intro missed hmissed
  rw [hheard, List.mem_map] at hmissed
  rcases hmissed with ⟨r, -, hr⟩
  cases hr

/-- The receiver does not disturb the calls. -/
theorem Reaches.traffic (h : l.Reaches after) : l.traffic.Reaches after.traffic := by
  induction h with
  | refl => exact .refl
  | tail _ hstep ih =>
    cases hstep with
    | served hserved => exact ih.tail hserved
    | received => exact ih

/-- The calls do not wait for the receiver. -/
theorem exists_served {w : Traffic} (h : l.traffic.Reaches w) :
    ∃ after, l.Reaches after ∧ after.traffic = w ∧ after.heard = l.heard := by
  induction h with
  | refl => exact ⟨l, .refl, rfl, rfl⟩
  | tail _ hstep ih =>
    rcases ih with ⟨before, hbefore, rfl, hheard⟩
    exact ⟨_, hbefore.tail (.served hstep), rfl, hheard⟩

/-- A step of the calls sends what it announces. -/
theorem waits_serve (hb : b.KeepsOrder Waits) {w : Traffic} (h : l.traffic.Step w)
    {rest : List ActivationRecord} (hwaits : Waits l.channel rest) :
    ∃ more, w.service.announced = l.traffic.service.announced ++ more ∧
      Waits (l.serve w).channel (rest ++ more) := by
  rcases h.exists_performs with ⟨ops, hperforms, -⟩
  refine ⟨_, hperforms.announced, ?_⟩
  simp only [serve, hperforms.announced, List.drop_left]
  exact hb.sends hwaits _

/-- As long as the receiver is never too slow, it has heard what has been announced, up to what
waits on the channel. -/
theorem Reaches.exists_waiting (hb : b.KeepsOrder Waits) (h : (start b config).Reaches l)
    (hlag : l.NeverLagged) :
    ∃ records rest, l.heard = records.map .record ∧ Waits l.channel rest ∧
      l.traffic.service.announced = records ++ rest := by
  induction h with
  | refl => exact ⟨[], [], rfl, hb.opened, rfl⟩
  | @tail before after _ hstep ih =>
    cases hstep with
    | served hserved =>
      rcases ih hlag with ⟨records, rest, hheard, hwaits, hannounced⟩
      rcases waits_serve hb hserved hwaits with ⟨more, hmore, hwaits'⟩
      refine ⟨records, rest ++ more, hheard, hwaits', ?_⟩
      rw [← List.append_assoc, ← hannounced]
      exact hmore
    | received =>
      have hbefore : before.NeverLagged := fun missed hmissed =>
        hlag missed (List.mem_append_left _ hmissed)
      rcases ih hbefore with ⟨records, rest, hheard, hwaits, hannounced⟩
      have hheard' : before.receive.heard =
          records.map .record ++ (b.receive before.channel).2.toList := by
        rw [← hheard]
        rfl
      cases rest with
      | nil =>
        rcases hb.empty hwaits with ⟨hnone, hwaits'⟩
        rw [hnone, Option.toList_none, List.append_nil] at hheard'
        exact ⟨records, [], hheard', hwaits', hannounced⟩
      | cons r rest =>
        rcases hb.next hwaits with ⟨hnext, hwaits'⟩ | ⟨missed, hmissed⟩
        · rw [hnext] at hheard'
          refine ⟨records ++ [r], rest, ?_, hwaits', ?_⟩
          · rw [hheard', List.map_append]
            rfl
          · rw [← List.append_cons]
            exact hannounced
        · refine (hlag missed ?_).elim
          rw [hheard', hmissed]
          exact List.mem_append_right _ (List.mem_singleton_self _)

/-! ## What is heard -/

/-- Where records have the numbers from one on, the first of them have the numbers from one on, and
the others have the numbers that follow. -/
theorem numbered_append {records rest : List ActivationRecord}
    (h : (records ++ rest).map ActivationRecord.sequence =
      List.range' 1 (records ++ rest).length) :
    records.map ActivationRecord.sequence = List.range' 1 records.length ∧
      rest.map ActivationRecord.sequence = List.range' (records.length + 1) rest.length := by
  rw [List.map_append, List.length_append, ← List.range'_append_1, Nat.add_comm 1] at h
  exact List.append_inj h (by simp)

/-- A receiver that is there from the beginning and is never too slow hears the records with the
numbers from one on, without a gap and each once.  What it gets next has the next number, and nothing
is left if and only if it has heard as many as the engine has counted.  If histories are retained and
identities tell constraints apart, every record that it has heard is in the history of its constraint,
and it has heard every record of any history that has such a number, and all of them if nothing is
left. -/
theorem heard_in_order (hb : b.KeepsOrder Waits) (h : (start b config).Reaches l)
    (hlag : l.NeverLagged) :
    let e := l.traffic.service.engine
    ∃ records : List ActivationRecord, l.heard = records.map .record ∧
      records.map ActivationRecord.sequence = List.range' 1 records.length ∧
      records.length ≤ e.sequence ∧
      (∀ r, (b.receive l.channel).2 = some (.record r) → r.sequence = records.length + 1) ∧
      ((b.receive l.channel).2 = none ↔ records.length = e.sequence) ∧
      (config.registry.retainHistory = true → l.traffic.Distinct config.limits →
        (∀ r ∈ records, ∃ history, e.history r.id = .ok history ∧ r ∈ history) ∧
        ∀ id history, e.history id = .ok history → ∀ r ∈ history,
          r.sequence ≤ records.length ∨ (b.receive l.channel).2 = none → r ∈ records) := by
  intro e
  rcases Traffic.exists_performs h.traffic with ⟨ops, hperforms, hasked⟩
  rcases Reaches.exists_waiting hb h hlag with ⟨records, rest, hheard, hwaits, hannounced⟩
  have hengine : e = (Engine.initial config.registry).run ops := hperforms.engine
  have hreturned : (Engine.initial config.registry).returnedIn ops = records ++ rest :=
    hperforms.announced.symm.trans hannounced
  rcases Engine.returnedIn_run config.registry ops with ⟨hsequence, hnumbers⟩
  rw [← hengine, hreturned, List.length_append] at hsequence
  rw [hreturned] at hnumbers
  rcases numbered_append hnumbers with ⟨hrecords, hrest⟩
  have hnone := hb.receive_eq_none_iff hwaits
  refine ⟨records, hheard, hrecords, by omega, ?_, ?_, fun hretain hdistinct => ?_⟩
  · intro r hr
    have hhead := congrArg (Option.map ActivationRecord.sequence) (hb.head_of_receive hwaits hr)
    rw [← List.head?_map, hrest, List.head?_range'] at hhead
    split at hhead
    · cases hhead
    · exact (Option.some.inj hhead).symm
  · rw [hnone, hsequence, ← List.length_eq_zero_iff]
    omega
  · have hops : Unambiguous ops := fun c d hc hd => hdistinct c d (hasked c hc) (hasked d hd)
    have hchronicled : e.Chronicled := hengine ▸ Engine.chronicled_run config.registry hops
    have harchive : e.archive.Perm (records ++ rest) := by
      rw [hengine, ← hreturned]
      exact Engine.archive_run hops hretain
    constructor
    · intro r hr
      rcases hchronicled.mem_archive_iff.1 (harchive.mem_iff.2 (List.mem_append_left _ hr)) with
        ⟨id, history, hhistory, hmem⟩
      rw [hchronicled.id_of_history hhistory hmem]
      exact ⟨history, hhistory, hmem⟩
    · intro id history hhistory r hr hreached
      have hmem := harchive.mem_iff.1 (hchronicled.mem_archive_iff.2 ⟨id, history, hhistory, hr⟩)
      refine (List.mem_append.1 hmem).resolve_right fun hwaiting => ?_
      have hnumber := List.mem_map_of_mem (f := ActivationRecord.sequence) hwaiting
      rw [hrest, List.mem_range'_1] at hnumber
      rcases hreached with hearlier | hempty
      · omega
      · rw [hnone.1 hempty] at hwaiting
        cases hwaiting

end Listening

/-! ## Two signers of a treasury -/

namespace Traffic

/-- A constraint is registered first of all. -/
def enrolled (c : Constraint) : Traffic :=
  (start {}).ask ⟨0⟩ (.add c)

/-- It is to be checked. -/
def asking (c : Constraint) : Traffic :=
  (enrolled c).ask ⟨1⟩ (.check (ConstraintId.derive c))

/-- Its facts have been fetched. -/
def evaluated (c : Constraint) (news : List FactUpdate) : Traffic :=
  (asking c).record ⟨1⟩ ((Story.begin (enrolled c).service (.check (ConstraintId.derive c))).goOn
    (asking c).service ((asking c).service.fetched (Engine.planOfFirst c) maxRetries none news 0))

section Evaluated

variable {c : Constraint} {circuit : Circuit}

theorem asked_evaluated {limits : Limits} {news : List FactUpdate} {d : Constraint}
    (h : (evaluated c news).Asked limits d) : limits.accept c = .ok d := by
  rcases h with ⟨id, story, hid, hchecked⟩
  rw [evaluated, calls_record] at hid
  split at hid
  · cases hid
    cases hchecked
  · rw [asking, ask, calls_record] at hid
    split at hid
    · cases hid
      cases hchecked
    · rw [enrolled, ask, calls_record] at hid
      split at hid
      · cases hid
        exact Option.some.inj hchecked
      · cases hid

theorem distinct_evaluated (limits : Limits) (c : Constraint) (news : List FactUpdate) :
    (evaluated c news).Distinct limits := by
  intro d d' hd hd' _
  have hsame := (asked_evaluated hd).symm.trans (asked_evaluated hd')
  exact Except.ok.inj hsame

theorem reaches_enrolled (c : Constraint) : (start {}).Reaches (enrolled c) :=
  .single (.begin rfl _)

theorem engine_enrolled (haccept : ({} : EngineConfig).limits.accept c = .ok c) :
    (enrolled c).service.engine = ((Engine.initial {}).add c).1 :=
  Service.engine_begin_add haccept

/-- A registration announces nothing. -/
theorem announced_enrolled (haccept : ({} : EngineConfig).limits.accept c = .ok c) :
    (enrolled c).service.announced = [] := by
  rcases exists_performs (reaches_enrolled c) with ⟨ops, hperforms, -⟩
  have hannounced : (enrolled c).service.announced = (Engine.initial {}).returnedIn ops :=
    hperforms.announced
  have hcount : (enrolled c).service.engine.sequence = _ :=
    (congrArg Engine.sequence hperforms.engine).trans (Engine.returnedIn_run {} ops).1
  rw [hannounced, ← List.length_eq_zero_iff, ← hcount, engine_enrolled haccept]
  exact ((Engine.initial {}).numbered_perform (.add c)).1

/-- The check goes on with what has been fetched for its plan. -/
theorem reaches_evaluated (haccept : ({} : EngineConfig).limits.accept c = .ok c)
    (hlowers : c.Lowers circuit) (news : List FactUpdate) :
    (start {}).Reaches (evaluated c news) := by
  refine ((reaches_enrolled c).tail (.begin rfl _)).tail (.goOn (calls_record_self _ _ _) ?_)
  have hstage : (Story.begin (enrolled c).service (.check (ConstraintId.derive c))).stage =
      ((enrolled c).service.beginPull (ConstraintId.derive c) maxRetries none).2 := rfl
  rcases Engine.exists_alone hlowers with ⟨-, -, -, -, -, -, hplan⟩
  rw [hstage, Service.beginPull, engine_enrolled haccept, hplan]
  exact .fetched news 0

/-- The constraint has been evaluated, and one record has been announced. -/
theorem exists_announced (haccept : ({} : EngineConfig).limits.accept c = .ok c)
    (hlowers : c.Lowers circuit) (news : List FactUpdate) :
    (evaluated c news).service.engine =
        (Engine.initial {}).run (Engine.evaluation c news) ∧
      ∃ r, (evaluated c news).service.announced = [r] ∧ r.id = ConstraintId.derive c := by
  rcases Engine.exists_evaluation hlowers news with ⟨status, batch, r, hpull, hrecords, hid, -⟩
  have hasking : (asking c).service = (enrolled c).service := Service.beginPull_fst _ _ _ _
  have hpulled : (evaluated c news).service =
      ((enrolled c).service.finishPull (Engine.planOfFirst c) news 0).1 := by
    rw [← hasking]
    exact (Service.fetched_cases _ _ _ _ _ _).1
  rw [hpulled, Service.finishPull, engine_enrolled haccept, hpull]
  have hadded : (enrolled c).service.announced ++ batch.records = [r] := by
    rw [announced_enrolled haccept, hrecords]
    rfl
  exact ⟨rfl, r, hadded, hid⟩

end Evaluated

end Traffic

namespace Listening

/-- The receiver hears of the evaluation. -/
theorem exists_hearing {c : Constraint} {circuit : Circuit}
    (haccept : ({} : EngineConfig).limits.accept c = .ok c) (hlowers : c.Lowers circuit)
    (news : List FactUpdate) :
    ∃ (l : Listening (.bounded 1024)) (r : ActivationRecord), (start _ {}).Reaches l ∧
      l.traffic = .evaluated c news ∧ l.heard = [.record r] ∧ r.id = ConstraintId.derive c := by
  rcases Traffic.exists_announced haccept hlowers news with ⟨-, r, hannounced, hid⟩
  have hreaches : (start (.bounded 1024) {}).traffic.Reaches (.evaluated c news) :=
    Traffic.reaches_evaluated haccept hlowers news
  rcases exists_served hreaches with ⟨before, hbefore, htraffic, hheard⟩
  have hlag : before.NeverLagged := neverLagged_of_heard [] hheard
  rcases hbefore.exists_waiting (Broadcast.keepsOrder_bounded 1024) hlag with
    ⟨records, rest, hrecords, hwaits, hsplit⟩
  have hnone : records = [] := List.map_eq_nil_iff.1 (hrecords.symm.trans hheard)
  rw [htraffic, hannounced, hnone, List.nil_append] at hsplit
  rw [← hsplit] at hwaits
  refine ⟨before.receive, r, hbefore.tail .received, htraffic, ?_, hid⟩
  rw [receive, hheard, Broadcast.receive_bounded hwaits (Nat.succ_le_succ (Nat.zero_le _))]
  rfl

open Engine (firstSigner secondSigner firstSigner_lowers secondSigner_lowers)

/-- The permission on which the first signer depends exists. -/
def firstFetch : List FactUpdate :=
  [⟨.permissionExists ⟨"upJ2uo9iEKD"⟩, some (.bool true)⟩]

theorem accept_signers :
    ({} : EngineConfig).limits.accept firstSigner = .ok firstSigner ∧
      ({} : EngineConfig).limits.accept secondSigner = .ok secondSigner :=
  ⟨Limits.accept_eq_ok_iff.2 ⟨rfl, by decide⟩, Limits.accept_eq_ok_iff.2 ⟨rfl, by decide⟩⟩

/-- The first record is heard under the first number, and is in the history of the signer. -/
theorem heard_in_order_evaluated :
    ∃ (l : Listening (.bounded 1024)) (r : ActivationRecord),
      (Broadcast.bounded 1024).KeepsOrder (Broadcast.Ring.Holds 1024) ∧
        (start _ {}).Reaches l ∧ l.NeverLagged ∧
        l.traffic.Distinct ({} : EngineConfig).limits ∧
        l.heard = [.record r] ∧ r.sequence = 1 ∧
        ∃ history, l.traffic.service.engine.history r.id = .ok history ∧ r ∈ history := by
  rcases exists_hearing accept_signers.1 firstSigner_lowers firstFetch with
    ⟨l, r, hreaches, htraffic, hheard, -⟩
  have hkeeps := Broadcast.keepsOrder_bounded 1024
  have hlag : l.NeverLagged := neverLagged_of_heard [r] hheard
  have hdistinct : l.traffic.Distinct ({} : EngineConfig).limits :=
    htraffic ▸ Traffic.distinct_evaluated _ firstSigner firstFetch
  rcases heard_in_order hkeeps hreaches hlag with
    ⟨records, hrecords, hnumbers, -, -, -, hhistories⟩
  rw [hheard, eq_comm, List.map_eq_singleton_iff] at hrecords
  rcases hrecords with ⟨s, rfl, hsame⟩
  cases hsame
  exact ⟨l, r, hkeeps, hreaches, hlag, hdistinct, hheard, (List.cons.inj hnumbers).1,
    (hhistories rfl hdistinct).1 r (List.mem_singleton_self r)⟩

/-- After the evaluation of the first signer the second one is registered. -/
def joined : Traffic :=
  (Traffic.evaluated firstSigner firstFetch).ask ⟨2⟩ (.add secondSigner)

/-- The receiver has heard of the first signer, and has missed nothing.  Histories are retained, but
the record is in none of them, since the second signer has the same identity. -/
theorem heard_forgotten :
    ∃ (l : Listening (.bounded 1024)) (r : ActivationRecord),
      (Broadcast.bounded 1024).KeepsOrder (Broadcast.Ring.Holds 1024) ∧
        (start _ {}).Reaches l ∧ l.NeverLagged ∧ l.traffic = joined ∧
        ({} : EngineConfig).registry.retainHistory = true ∧ l.heard = [.record r] ∧
        ∀ id history, l.traffic.service.engine.history id = .ok history → r ∉ history := by
  rcases exists_hearing accept_signers.1 firstSigner_lowers firstFetch with
    ⟨l, r, hreaches, htraffic, hheard, hid⟩
  have hstep : l.traffic.Step joined := by
    rw [htraffic]
    exact .begin rfl _
  have hengine :=
    (Traffic.exists_announced accept_signers.1 firstSigner_lowers firstFetch).1
  have hjoined : joined.service.engine =
      (((Engine.initial {}).run (Engine.evaluation firstSigner firstFetch)).add
        secondSigner).1 := by
    rcases Traffic.exists_performs (Traffic.reaches_evaluated accept_signers.1
      firstSigner_lowers firstFetch) with ⟨ops, hperforms, -⟩
    rw [← hengine]
    refine Service.engine_begin_add ?_
    rw [hperforms.config]
    exact accept_signers.2
  refine ⟨l.serve joined, r, Broadcast.keepsOrder_bounded 1024, hreaches.tail (.served hstep),
    neverLagged_of_heard [r] hheard, rfl, rfl, hheard, fun id history hhistory => ?_⟩
  have hlater : joined.service.engine.history id = .ok history := hhistory
  rw [hjoined] at hlater
  exact Engine.forgets_firstSigner firstFetch hid hlater

end Listening
end Mandate
