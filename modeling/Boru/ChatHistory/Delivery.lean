import Boru.LTS.Basic
import Mathlib.Order.Basic

/-!
# Delivery of a message

Workers and the network report on the delivery of an outgoing message in any order.  A reducer folds
their events into the facts that are stored of the message, and every frontend derives one label
from the facts.  Each event bears the generation of the attempt it belongs to; events of generations
below the stored one are stale and ignored.

A receipt or a read report is evidence.  Timeouts and failures leave the facts of a delivered
message alone, but a start, a publication and a retry do not look at the phase: with the generation
of the receipt they are not stale, and turn the message back to one that is being sent.

* `delivery_monotone_iff` : evidence stays in the label along a run exactly when no step handles
  such an event.
-/

namespace Boru.ChatHistory

/-- Canonical durable phase of an outgoing delivery. -/
inductive DeliveryPhase where
  | queued
  | sending
  | delivered
  | failed
  deriving DecidableEq

inductive QueuedReason where
  | initial
  | retry
  | offline
  | awaitingWorker
  | legacyUnknown

/-- Durable facts from which every frontend derives its delivery label. -/
structure DeliveryFacts where
  phase : DeliveryPhase := .queued
  queuedReason : QueuedReason := .initial
  generation : UInt64 := 0
  activeAttempt : Option UInt64 := none
  awaitingAck : Bool := false
  publicationObserved : Bool := false
  readObserved : Bool := false
  failureCode : Option String := none

variable (facts : DeliveryFacts)

/-- One label shared by all frontends. -/
def DeliveryFacts.label : String :=
  match facts.phase with
  | .queued => "Sending"
  | .sending => if facts.publicationObserved then "Sent" else "Sending"
  | .delivered => if facts.readObserved then "Read" else "Delivered"
  | .failed => "Failed"

/-- What workers and the network report. -/
inductive DeliveryEvent where
  | startAttempt (generation : UInt64)
  | published (generation : UInt64)
  | timeout (generation : UInt64)
  | failed (generation : UInt64) (code : String)
  | receipt (generation : UInt64)
  | read (generation : UInt64)
  | retry (generation : UInt64) (reason : QueuedReason)

namespace DeliveryEvent

def generation : DeliveryEvent → UInt64
  | startAttempt g | published g | timeout g | failed g _ | receipt g | read g | retry g _ => g

def isEvidence : DeliveryEvent → Bool
  | receipt _ | read _ => true
  | _ => false

def isRead : DeliveryEvent → Bool
  | read _ => true
  | _ => false

/-- The events that put a message back to one that is being sent, whatever its phase. -/
def restarts : DeliveryEvent → Bool
  | startAttempt _ | published _ | retry .. => true
  | _ => false

end DeliveryEvent

open DeliveryEvent

/-- The facts after a failure, unless the message is delivered. -/
def fail (generation : UInt64) (code : String) : DeliveryFacts × Bool :=
  if facts.readObserved ∨ facts.phase = .delivered then (facts, false)
  else
    ({ facts with
        generation := max facts.generation generation
        phase := .failed
        awaitingAck := false
        failureCode := some code }, true)

/-- Fold an event into the facts, and say whether it was applied. -/
def reduceDelivery (event : DeliveryEvent) : DeliveryFacts × Bool :=
  if event.generation < facts.generation then (facts, false)
  else
    match event with
    | .receipt generation =>
      ({ facts with
          generation := max facts.generation generation
          phase := .delivered
          publicationObserved := true
          awaitingAck := false }, true)
    | .read generation =>
      ({ facts with
          generation := max facts.generation generation
          phase := .delivered
          publicationObserved := true
          awaitingAck := false
          readObserved := true }, true)
    | .startAttempt generation =>
      ({ facts with
          generation := generation
          activeAttempt := some generation
          phase := .sending
          awaitingAck := true
          failureCode := none }, true)
    | .published generation =>
      ({ facts with
          generation := max facts.generation generation
          phase := .sending
          publicationObserved := true
          awaitingAck := true }, true)
    | .timeout generation => fail facts generation "timeout"
    | .failed generation code => fail facts generation code
    | .retry generation reason =>
      ({ facts with
          generation := generation
          phase := .queued
          queuedReason := reason
          activeAttempt := none
          awaitingAck := false }, true)

/-! ### Runs -/

/-- The facts of a message, and the events that were applied to them. -/
structure Delivery where
  facts : DeliveryFacts
  applied : List DeliveryEvent

def Delivery.next (d : Delivery) (event : DeliveryEvent) : Delivery where
  facts := (reduceDelivery d.facts event).1
  applied := if (reduceDelivery d.facts event).2 then d.applied ++ [event] else d.applied

def reducer : Machine Delivery DeliveryEvent Empty where
  step d event := (d.next event, [])

namespace Delivery

/-- A step keeps the evidence: no late callback changes the label to one that does not show the
evidence, and after a read report the label is `Read`. -/
def KeepsEvidence (d : Delivery) (event : DeliveryEvent) : Prop :=
  (∀ r ∈ d.applied, r.isEvidence → ¬ event.isEvidence → event.generation ≤ r.generation →
    (d.next event).facts.label = d.facts.label ∨ (d.next event).facts.label = "Delivered" ∨
      (d.next event).facts.label = "Read") ∧
  ((d.next event).applied.any isRead → (d.next event).facts.label = "Read")

instance decidableKeepsEvidence (d : Delivery) (event : DeliveryEvent) :
    Decidable (d.KeepsEvidence event) := inferInstanceAs (Decidable (_ ∧ _))

/-- An event restarts a message for which there is evidence: it has the generation of the evidence,
or a later one although the message was read. -/
def Restarts (d : Delivery) (event : DeliveryEvent) : Prop :=
  event.restarts ∧ d.facts.phase = .delivered ∧ d.applied.any isEvidence ∧
    (event.generation = d.facts.generation ∨
      d.facts.generation < event.generation ∧ d.applied.any isRead)

/-! ### What an event does -/

structure Applied (d d' : Delivery) (event : DeliveryEvent) : Prop where
  newer : d.facts.generation ≤ event.generation
  generation : d'.facts.generation = event.generation
  applied : d'.applied = d.applied ++ [event]

inductive Outcome (d d' : Delivery) (event : DeliveryEvent) : Prop
  /-- The event is stale, or a failure of a delivered message. -/
  | ignored (same : d' = d)
      (stale : event.generation < d.facts.generation ∨ ¬ event.restarts)
  | evidence (h : d.Applied d' event) (evidence : event.isEvidence)
      (phase : d'.facts.phase = .delivered)
      (read : d'.facts.readObserved = (d.facts.readObserved || event.isRead))
  | restarted (h : d.Applied d' event) (restarts : event.restarts)
      (label : d'.facts.label = "Sending" ∨ d'.facts.label = "Sent")
      (phase : d'.facts.phase ≠ .delivered)
  /-- The event is a failure of a message that has not been delivered. -/
  | failed (h : d.Applied d' event) (other : ¬ event.isEvidence)
      (pending : ¬ (d.facts.readObserved ∨ d.facts.phase = .delivered))
      (phase : d'.facts.phase = .failed)

theorem max_generation {a b : UInt64} (h : ¬ b < a) : max a b = b := if_pos (UInt64.not_lt.1 h)

theorem next_of_applied {d : Delivery} {event : DeliveryEvent} {facts : DeliveryFacts}
    (h : reduceDelivery d.facts event = (facts, true)) :
    d.next event = ⟨facts, d.applied ++ [event]⟩ := by
  simp [next, h]

theorem next_of_ignored {d : Delivery} {event : DeliveryEvent}
    (h : reduceDelivery d.facts event = (d.facts, false)) : d.next event = d := by
  simp [next, h]

theorem outcome_of_fail {d : Delivery} {event : DeliveryEvent} {code : String}
    (hs : ¬ event.generation < d.facts.generation) (hev : ¬ event.isEvidence)
    (hk : ¬ event.restarts)
    (hf : reduceDelivery d.facts event = fail d.facts event.generation code) :
    d.Outcome (d.next event) event := by
  by_cases hd : d.facts.readObserved ∨ d.facts.phase = .delivered
  · exact .ignored (next_of_ignored (hf.trans (if_pos hd))) (.inr hk)
  · rw [next_of_applied (hf.trans (if_neg hd))]
    exact .failed ⟨UInt64.not_lt.1 hs, max_generation hs, rfl⟩ hev hd rfl

theorem outcome_next (d : Delivery) (event : DeliveryEvent) : d.Outcome (d.next event) event := by
  by_cases hs : event.generation < d.facts.generation
  · exact .ignored (next_of_ignored (if_pos hs)) (.inl hs)
  have hn := UInt64.not_lt.1 hs
  cases event with
  | receipt g =>
    rw [next_of_applied (if_neg hs)]
    exact .evidence ⟨hn, max_generation hs, rfl⟩ rfl rfl (Bool.or_false _).symm
  | read g =>
    rw [next_of_applied (if_neg hs)]
    exact .evidence ⟨hn, max_generation hs, rfl⟩ rfl rfl (Bool.or_true _).symm
  | startAttempt g =>
    rw [next_of_applied (if_neg hs)]
    refine .restarted ⟨hn, rfl, rfl⟩ rfl ?_ (by simp)
    cases d.facts.publicationObserved <;> simp [DeliveryFacts.label]
  | published g =>
    rw [next_of_applied (if_neg hs)]
    exact .restarted ⟨hn, max_generation hs, rfl⟩ rfl (.inr rfl) (by simp)
  | retry g reason =>
    rw [next_of_applied (if_neg hs)]
    exact .restarted ⟨hn, rfl, rfl⟩ rfl (.inl rfl) (by simp)
  | timeout g | failed g code =>
    exact outcome_of_fail hs (by simp [isEvidence]) (by simp [restarts]) (if_neg hs)

/-! ### Invariant -/

/-- What is known of the evidence that was applied. -/
structure Evident (d : Delivery) : Prop where
  le : ∀ r ∈ d.applied, r.isEvidence → r.generation ≤ d.facts.generation
  /-- Evidence of the current generation shows in the phase. -/
  phase : ∀ r ∈ d.applied, r.isEvidence → r.generation = d.facts.generation →
    d.facts.phase = .delivered
  /-- The phase shows evidence of the current generation. -/
  current : d.facts.phase = .delivered → d.applied.any isEvidence →
    ∃ r ∈ d.applied, r.isEvidence ∧ r.generation = d.facts.generation
  read : d.applied.any isRead → d.facts.phase = .delivered ∧ d.facts.readObserved

variable {d d' : Delivery} {event : DeliveryEvent}

theorem any_applied (h : d.Applied d' event) (p : DeliveryEvent → Bool) :
    d'.applied.any p ↔ d.applied.any p ∨ p event := by
  simp [h.applied]

theorem mem_applied (h : d.Applied d' event) {r : DeliveryEvent} (ho : ¬ event.isEvidence)
    (hr : r ∈ d'.applied) (hev : r.isEvidence) : r ∈ d.applied := by
  rw [h.applied] at hr
  obtain hr | hr := List.mem_append.1 hr
  · exact hr
  · obtain rfl := List.mem_singleton.1 hr
    exact absurd hev ho

theorem label_of_read (hp : d.facts.phase = .delivered) (hr : d.facts.readObserved) :
    d.facts.label = "Read" := by
  simp [DeliveryFacts.label, hp, hr]

theorem label_of_delivered (hp : d.facts.phase = .delivered) :
    d.facts.label = "Delivered" ∨ d.facts.label = "Read" := by
  cases hr : d.facts.readObserved <;> simp [DeliveryFacts.label, hp]

theorem not_isEvidence_of_restarts (h : event.restarts) : ¬ event.isEvidence ∧ ¬ event.isRead := by
  cases event <;> simp_all [restarts, isEvidence, isRead]

theorem isEvidence_of_isRead (h : event.isRead) : event.isEvidence := by
  cases event <;> simp_all [isRead, isEvidence]

/-- Evidence that is not older than an applied event has its generation, and shows in the phase. -/
theorem Evident.eq_of_le (hd : d.Evident) {r : DeliveryEvent} (hr : r ∈ d.applied)
    (hev : r.isEvidence) (hn : d.facts.generation ≤ event.generation)
    (hle : event.generation ≤ r.generation) :
    event.generation = d.facts.generation ∧ d.facts.phase = .delivered := by
  have heq := UInt64.le_antisymm (UInt64.le_trans hle (hd.le r hr hev)) hn
  exact ⟨heq, hd.phase r hr hev (UInt64.le_antisymm (hd.le r hr hev) (UInt64.le_trans hn hle))⟩

/-- Without evidence of its generation, an event moves the message beyond the evidence. -/
theorem Evident.beyond (hd : d.Evident) (h : d.Applied d' event) (ho : ¬ event.isEvidence)
    (hn : ¬ (event.generation = d.facts.generation ∧ d.facts.phase = .delivered ∧
      d.applied.any isEvidence))
    (hp : d'.facts.phase ≠ .delivered) (hre : ¬ d'.applied.any isRead) :
    d'.Evident where
  le r hr hev := by
    rw [h.generation]
    exact UInt64.le_trans (hd.le r (mem_applied h ho hr hev) hev) h.newer
  phase r hr hev heq := by
    have hr := mem_applied h ho hr hev
    rw [h.generation] at heq
    obtain ⟨hg, hde⟩ := hd.eq_of_le hr hev h.newer (UInt64.le_of_eq heq.symm)
    exact absurd ⟨hg, hde, List.any_eq_true.2 ⟨r, hr, hev⟩⟩ hn
  current hde := absurd hde hp
  read hr := absurd hr hre

/-- A step that does not restart a message with evidence keeps the invariant. -/
theorem Evident.next (hd : d.Evident) (hstep : ¬ d.Restarts event) : (d.next event).Evident := by
  obtain ⟨same, -⟩ | ⟨h, hev, hp, hrd⟩ | ⟨h, hre, -, hp⟩ | ⟨h, hev, hpe, hp⟩ := d.outcome_next event
  · rw [same]
    exact hd
  · refine ⟨fun r hr hrv => ?_, fun _ _ _ _ => hp, fun _ _ => ⟨event, ?_, hev, ?_⟩,
      fun hr => ⟨hp, ?_⟩⟩
    · rw [h.generation]
      rw [h.applied] at hr
      obtain hr | hr := List.mem_append.1 hr
      · exact UInt64.le_trans (hd.le r hr hrv) h.newer
      · obtain rfl := List.mem_singleton.1 hr
        exact UInt64.le_refl _
    · simp [h.applied]
    · exact h.generation.symm
    · rw [hrd, Bool.or_eq_true]
      exact ((any_applied h _).1 hr).imp_left fun ho => (hd.read ho).2
  · obtain ⟨hev, hn⟩ := not_isEvidence_of_restarts hre
    refine hd.beyond h hev ?_ hp ?_
    · rintro ⟨hg, hde, ha⟩
      exact hstep ⟨hre, hde, ha, .inl hg⟩
    · intro hr
      have ho := ((any_applied h _).1 hr).resolve_right hn
      obtain ⟨r, hr, hi⟩ := List.any_eq_true.1 ho
      have ha : d.applied.any isEvidence :=
        List.any_eq_true.2 ⟨r, hr, isEvidence_of_isRead hi⟩
      refine hstep ⟨hre, (hd.read ho).1, ha, ?_⟩
      by_cases heq : event.generation = d.facts.generation
      · exact .inl heq
      · exact .inr ⟨UInt64.lt_of_le_of_ne h.newer (Ne.symm heq), ho⟩
  · -- a failure is applied only to a message that is not delivered, so there is no read report
    refine hd.beyond h hev (fun hno => hpe (.inr hno.2.1)) (by simp [hp]) ?_
    intro hr
    obtain ho | hi := (any_applied h _).1 hr
    · exact hpe (.inr (hd.read ho).1)
    · exact hev (isEvidence_of_isRead hi)

/-- A step that restarts a message with evidence does not keep the evidence. -/
theorem not_keepsEvidence_of_restarts (hd : d.Evident) (hstep : d.Restarts event) :
    ¬ d.KeepsEvidence event := by
  rintro ⟨hl, hrd⟩
  obtain ⟨hre, hde, ha, hg⟩ := hstep
  obtain ⟨-, hst⟩ | ⟨-, hev, -, -⟩ | ⟨h, -, hs, -⟩ | ⟨-, -, hp, -⟩ :=
    d.outcome_next event
  · obtain hst | hk := hst
    · obtain heq | ⟨hlt, -⟩ := hg
      · exact UInt64.lt_irrefl _ (heq ▸ hst)
      · exact UInt64.lt_irrefl _ (UInt64.lt_trans hlt hst)
    · exact hk hre
  · exact (not_isEvidence_of_restarts hre).1 hev
  · obtain heq | ⟨-, hrea⟩ := hg
    · -- the evidence of this generation is hidden by the new label
      obtain ⟨r, hr, hrv, hrg⟩ := hd.current hde ha
      have hsh := hl r hr hrv (not_isEvidence_of_restarts hre).1
        (UInt64.le_of_eq (heq.trans hrg.symm))
      obtain ho | ho := label_of_delivered hde <;> obtain hn | hn := hs <;>
        simp [ho, hn] at hsh
    · have hsh := hrd ((any_applied h _).2 (.inl hrea))
      obtain hn | hn := hs <;> simp [hn] at hsh
  · exact hp (.inr hde)

/-- A step keeps the evidence exactly when it does not restart a message with evidence. -/
theorem keepsEvidence_iff (hd : d.Evident) : d.KeepsEvidence event ↔ ¬ d.Restarts event := by
  refine ⟨fun hk hstep => not_keepsEvidence_of_restarts hd hstep hk, fun hstep => ⟨?_, ?_⟩⟩
  · intro r hr hrv hev hle
    obtain ⟨same, -⟩ | ⟨-, hev', -, -⟩ | ⟨h, hre, -, -⟩ | ⟨h, -, hp, -⟩ :=
      d.outcome_next event
    · rw [same]
      exact .inl rfl
    · exact absurd hev' hev
    · obtain ⟨heq, hde⟩ := hd.eq_of_le hr hrv h.newer hle
      exact absurd ⟨hre, hde, List.any_eq_true.2 ⟨r, hr, hrv⟩, .inl heq⟩ hstep
    · obtain ⟨-, hde⟩ := hd.eq_of_le hr hrv h.newer hle
      exact absurd (.inr hde) hp
  · intro hrd
    obtain ⟨hph, ho⟩ := (hd.next hstep).read hrd
    exact label_of_read hph ho

end Delivery

/-- **Evidence stays.**  Along every run of the reducer from any facts, no late callback changes the
label to one that hides a receipt and the label stays `Read` after a read report, exactly when no
event restarts a message for which there is evidence. -/
theorem delivery_monotone_iff (facts : DeliveryFacts) (events : List DeliveryEvent) :
    reducer.Along Delivery.KeepsEvidence ⟨facts, []⟩ events ↔
      reducer.Along (fun d event => ¬ d.Restarts event) ⟨facts, []⟩ events :=
  Machine.along_congr_of_invariant (P := Delivery.Evident)
    ⟨by simp, by simp, by simp, by simp⟩ (fun _ _ hd => Delivery.keepsEvidence_iff hd)
    fun _ _ hd hstep => hd.next hstep

/-- The publication of the attempt that was received is reported after its receipt. -/
theorem receipt_erased :
    ¬ reducer.Along Delivery.KeepsEvidence ⟨{}, []⟩ [.startAttempt 1, .receipt 1, .published 1] ∧
      (reducer.exec ⟨{}, []⟩ [.startAttempt 1, .receipt 1, .published 1]).facts.label = "Sent" := by
  decide +kernel

end Boru.ChatHistory
