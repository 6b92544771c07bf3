import Boru.LTS.History
import Boru.ScreenShare.Viewer

/-!
# Dependent frames and their references

A dependent frame should reach the decoder only if every frame since the last decoded keyframe was
decoded, and the ordering watermark should never go back.  The pipeline notices a jump of the
sequence when a unit arrives, but not what it drops itself: the oldest unit of a full queue.  An
older keyframe in the queue also ends the wait that a later jump began, and the decode loop sets the
watermark back to the last frame it accepted.

* `Link` : what the next frame has to be, as the frames of a queue go by.
* `ViewerPipeline.tracks_enqueue`, `ViewerPipeline.tracks_process` : what keeps the references
  whole.
* `referenced_of_careful` : the condition on the steps under which both properties hold in a run.
-/

namespace Boru.ScreenShare

open History

/-- Every frame between the last decoded keyframe and the frame number `n` was decoded. -/
def Referenced (history : List Handed) (n : ℕ) : Prop :=
  ∃ before key after, history = before ++ key :: after ∧
    (key.keyframe = true ∧ key.decoded = true) ∧
    (∀ x ∈ after, x.keyframe = true → x.decoded = false) ∧
    ∀ s, key.number < s → s < n → ∃ x ∈ after, x.number = s ∧ x.decoded = true

/-- A dependent frame is handed to the decoder only with all its references. -/
def ReferencesIntact (history : List Handed) : Prop :=
  Each (fun before x => x.keyframe = false → Referenced before x.number) history

/-- The watermark does not go back. -/
def NotEarlier (old new : Option UInt64) : Prop :=
  ∀ a, old = some a → ∃ b, new = some b ∧ a ≤ b

/-! ### References -/

section References

variable {history : List Handed} {x : Handed} {n : ℕ}

theorem Referenced.of_keyframe (hkey : x.keyframe = true) (hd : x.decoded = true) :
    Referenced (history ++ [x]) (x.number + 1) :=
  ⟨history, x, [], rfl, ⟨hkey, hd⟩, by simp, fun s h h' => by omega⟩

theorem Referenced.snoc (h : Referenced history x.number) (hd : x.keyframe = false)
    (hde : x.decoded = true) : Referenced (history ++ [x]) (x.number + 1) := by
  obtain ⟨pre, key, post, rfl, hkey, hl, hall⟩ := h
  refine ⟨pre, key, post ++ [x], by simp, hkey, fun y hy hyk => ?_, fun s hs hs' => ?_⟩
  · obtain hy | hy := List.mem_append.1 hy
    · exact hl y hy hyk
    · obtain rfl := List.mem_singleton.1 hy
      rw [hd] at hyk
      cases hyk
  · obtain hlt | rfl := Nat.lt_succ_iff_lt_or_eq.1 hs'
    · obtain ⟨y, hy, hn⟩ := hall s hs hlt
      exact ⟨y, List.mem_append_left _ hy, hn⟩
    · exact ⟨x, List.mem_append_right _ (List.mem_singleton_self x), rfl, hde⟩

end References

/-! ### Links -/

/-- What the next frame has to be: any, since dependent frames are dropped, or a keyframe or the
dependent frame with this number. -/
inductive Link where
  | dropping
  | follows (next : Option ℕ)

namespace Link

def after (link : Link) (u : MediaUnit) : Link :=
  if u.keyframe then .follows (some (u.number + 1))
  else
    match link with
    | dropping => dropping
    | follows _ => follows (some (u.number + 1))

/-- The frame may come next. -/
def Admits (link : Link) (u : MediaUnit) : Prop :=
  u.keyframe = true ∨ link = dropping ∨ link = follows (some u.number)

/-- The frames may come next, one after the other. -/
def Admissible : Link → List MediaUnit → Prop
  | _, [] => True
  | link, u :: queue => link.Admits u ∧ (link.after u).Admissible queue

def afterAll (link : Link) (queue : List MediaUnit) : Link := queue.foldl after link

variable {link : Link} {u : MediaUnit} {queue : List MediaUnit}

theorem after_of_keyframe (h : u.keyframe = true) : link.after u = follows (some (u.number + 1)) :=
  if_pos h

theorem dropping_after (h : u.keyframe = false) : dropping.after u = dropping := by
  simp [after, h]

theorem follows_after (next : Option ℕ) :
    (follows next).after u = follows (some (u.number + 1)) := by
  cases hu : u.keyframe <;> simp [after]

theorem after_eq : link.after u = dropping ∨ link.after u = follows (some (u.number + 1)) := by
  cases link with
  | dropping => cases hu : u.keyframe <;> simp [after]
  | follows next => exact .inr (follows_after next)

theorem admissible_append :
    link.Admissible (queue ++ [u]) ↔ link.Admissible queue ∧ (link.afterAll queue).Admits u := by
  induction queue generalizing link with
  | nil => simp [Admissible, afterAll]
  | cons v queue ih => exact (and_congr_right fun _ => ih).trans and_assoc.symm

theorem afterAll_append : link.afterAll (queue ++ [u]) = (link.afterAll queue).after u := by
  simp [afterAll]

theorem afterAll_cons : link.afterAll (u :: queue) = (link.after u).afterAll queue := rfl

/-- Dropping dependent frames is safe, and it goes on until a keyframe. -/
theorem Admissible.dropping (h : link.Admissible queue) :
    Link.dropping.Admissible queue ∧ (Link.dropping.afterAll queue = .dropping ∨
      Link.dropping.afterAll queue = link.afterAll queue) := by
  induction queue generalizing link with
  | nil => exact ⟨trivial, .inl rfl⟩
  | cons v queue ih =>
    cases hv : v.keyframe with
    -- a keyframe ends the dropping, and from there on the two links agree
    | true =>
      have ha : Link.dropping.after v = link.after v := by
        rw [after_of_keyframe hv, after_of_keyframe hv]
      refine ⟨⟨.inl hv, ha ▸ h.2⟩, .inr ?_⟩
      exact congrArg (fun l : Link => l.afterAll queue) ha
    | false =>
      obtain ⟨hq, hall⟩ := ih h.2
      have ha := dropping_after hv
      refine ⟨⟨.inr (.inl rfl), ?_⟩, ?_⟩
      · rwa [ha]
      · rwa [afterAll_cons, ha]

/-- Without a keyframe it goes on to the end. -/
theorem dropping_afterAll (h : ∀ v ∈ queue, MediaUnit.keyframe v = false) :
    dropping.afterAll queue = dropping := by
  induction queue with
  | nil => rfl
  | cons v queue ih =>
    have ha := dropping_after (h v List.mem_cons_self)
    rw [afterAll_cons, ha]
    exact ih fun w hw => h w (List.mem_cons_of_mem _ hw)

/-- Before a keyframe the link does not matter. -/
theorem Admissible.of_keyframe (h : link.Admissible (u :: queue)) (hu : u.keyframe = true)
    (link' : Link) :
    link'.Admissible (u :: queue) ∧ link'.afterAll (u :: queue) = link.afterAll (u :: queue) := by
  have ha : link'.after u = link.after u := by
    rw [after_of_keyframe hu, after_of_keyframe hu]
  exact ⟨⟨.inl hu, ha ▸ h.2⟩, congrArg (fun l : Link => l.afterAll queue) ha⟩

def Holds (history : List Handed) (waiting : Bool) : Link → Prop
  | dropping => waiting = true
  | follows next => waiting = false ∧ ∀ n, next = some n → Referenced history n

end Link

/-! ### What the decoder answers -/

/-- What becomes of a frame of a batch. -/
inductive Answer where
  /-- It is not handed to the decoder. -/
  | skipped
  | picture
  /-- It gives no picture, and the viewer waits for a keyframe. -/
  | nothing
  /-- It is a keyframe and gives no picture, and the viewer does not wait for another. -/
  | lost
  | failed
  deriving DecidableEq

/-- Whether the frame moves the watermark. -/
def Answer.accepted : Answer → Bool
  | .picture | .nothing | .lost => true
  | .skipped | .failed => false

section Batch

variable {D P : Type} (V : VideoDecoder D P)

/-- What a result of the decoder means for the frame, with the decoder and the wait for a keyframe
afterwards. -/
def respondTo (d : D) (waiting keyframe : Bool) :
    Except ScreenShareError (Option P) → Answer × D × Bool
  | .ok (some _) => (.picture, d, false)
  | .ok none => (if keyframe && !waiting then .lost else .nothing, d, waiting || !keyframe)
  | .error _ => (.failed, V.reset d, true)

/-- The answer to a frame of a batch. -/
def respond (d : D) (waiting : Bool) (u : MediaUnit) : Answer × D × Bool :=
  if waiting && !u.keyframe then (.skipped, d, waiting)
  else respondTo V (V.decode d u.frame).1 waiting u.keyframe (V.decode d u.frame).2

/-- The answers to the frames of a batch. -/
def answers (d : D) (waiting : Bool) : List MediaUnit → List Answer
  | [] => []
  | u :: queue =>
    let r := respond V d waiting u
    r.1 :: answers r.2.1 r.2.2 queue

end Batch

namespace ViewerPipeline

variable {D P : Type} {V : VideoDecoder D P} {p : ViewerPipeline D P} {u : MediaUnit}
  {history : List Handed} {link : Link}

/-! ### The decode loop -/

/-- What the decoder's answer does, by its meaning. -/
theorem absorb_eq (p : ViewerPipeline D P) (u : MediaUnit)
    (r : Except ScreenShareError (Option P)) :
    (p.absorb V u r).decoder =
        (respondTo V p.decoder p.waitingForKeyframe u.keyframe r).2.1 ∧
      (p.absorb V u r).waitingForKeyframe =
        (respondTo V p.decoder p.waitingForKeyframe u.keyframe r).2.2 ∧
      (p.absorb V u r).lastSequence =
        (if (respondTo V p.decoder p.waitingForKeyframe u.keyframe r).1.accepted then
          some u.1.sequence else p.lastSequence) ∧
      (p.absorb V u r).queue = p.queue := by
  rcases r with e | _ | picture
  · exact ⟨rfl, rfl, rfl, rfl⟩
  · unfold absorb
    cases u.keyframe <;> cases p.waitingForKeyframe <;> exact ⟨rfl, rfl, rfl, rfl⟩
  · exact ⟨rfl, rfl, rfl, rfl⟩

/-- What one round of the loop does, by the answer to the frame. -/
theorem consume_eq :
    (p.consume V u).1.decoder = (respond V p.decoder p.waitingForKeyframe u).2.1 ∧
      (p.consume V u).1.waitingForKeyframe = (respond V p.decoder p.waitingForKeyframe u).2.2 ∧
      (p.consume V u).1.lastSequence =
        (if (respond V p.decoder p.waitingForKeyframe u).1.accepted then some u.1.sequence
          else p.lastSequence) ∧
      (p.consume V u).1.queue = p.queue := by
  unfold consume respond
  split
  · exact ⟨rfl, rfl, rfl, rfl⟩
  · exact absorb_eq { p with decoder := (V.decode p.decoder u.frame).1 } u _

/-- One round keeps the references: the frame that the link admits is handed with them, and then the
link goes on or dependent frames are dropped. -/
theorem holds_consume (hl : link.Holds history p.waitingForKeyframe) (hu : link.Admits u)
    (hlo : (respond V p.decoder p.waitingForKeyframe u).1 ≠ .lost)
    (hi : ReferencesIntact history) :
    ∃ link' : Link,
      link'.Holds (history ++ (p.consume V u).2) (p.consume V u).1.waitingForKeyframe ∧
      (link' = .dropping ∨ link' = link.after u) ∧
      ReferencesIntact (history ++ (p.consume V u).2) := by
  unfold consume
  unfold respond at hlo
  split
  next hskip =>
    -- only a pipeline that waits skips a frame, so the link drops
    rw [List.append_nil]
    refine ⟨link, hl, .inl ?_, hi⟩
    cases link with
    | dropping => rfl
    | follows next =>
      rw [hl.1] at hskip
      cases hskip
  next hhanded =>
    -- a dependent frame is handed only if the viewer does not wait, and then with its references
    have hr : u.keyframe = false → Referenced history u.number := by
      intro hd
      obtain hkey | rfl | rfl := hu
      · rw [hkey] at hd
        cases hd
      · rw [show p.waitingForKeyframe = true from hl, hd] at hhanded
        exact absurd rfl hhanded
      · exact hl.2 _ rfl
    dsimp only
    -- an error or no picture makes the pipeline wait; a picture continues the link
    rcases hre : (V.decode p.decoder u.frame).2 with e | _ | picture
    · exact ⟨.dropping, rfl, .inl rfl, hi.snoc hr⟩
    · refine ⟨.dropping, ?_, .inl rfl, hi.snoc hr⟩
      rw [hre] at hlo
      have hw := (absorb_eq (V := V) { p with decoder := (V.decode p.decoder u.frame).1 } u
        (.ok none)).2.1
      refine hw.trans ?_
      revert hlo
      unfold respondTo
      cases u.keyframe <;> cases p.waitingForKeyframe <;> simp
    · refine ⟨.follows (some (u.number + 1)), ⟨rfl, ?_⟩, .inr ?_, hi.snoc hr⟩
      · rintro n ⟨⟩
        cases hkey : u.keyframe with
        | true => exact .of_keyframe rfl rfl
        | false => exact (hr hkey).snoc rfl rfl
      · cases link with
        | dropping =>
          have hw : p.waitingForKeyframe = true := hl
          have hkey : u.keyframe = true := by simpa [hw] using hhanded
          exact (Link.after_of_keyframe hkey).symm
        | follows next => exact (Link.follows_after next).symm

variable (queue : List MediaUnit)

theorem holds_drain (hli : link.Holds history p.waitingForKeyframe) (hq : link.Admissible queue)
    (hl : .lost ∉ answers V p.decoder p.waitingForKeyframe queue)
    (hi : ReferencesIntact history) :
    ∃ link' : Link,
      link'.Holds (history ++ (p.drain V queue).2) (p.drain V queue).1.waitingForKeyframe ∧
      (link' = .dropping ∨ link' = link.afterAll queue) ∧
      ReferencesIntact (history ++ (p.drain V queue).2) := by
  induction queue generalizing p history link with
  | nil =>
    rw [drain, List.append_nil]
    exact ⟨link, hli, .inr rfl, hi⟩
  | cons u queue ih =>
    rw [answers, List.mem_cons, not_or] at hl
    obtain ⟨link', hlink', haf, hintact'⟩ :=
      holds_consume hli hq.1 (Ne.symm hl.1) hi
    obtain ⟨hd, hw, -⟩ := consume_eq (V := V)
    rw [← hd, ← hw] at hl
    -- a link that drops after the first frame is behind the original one at most
    have ha : link'.Admissible queue ∧
        (link'.afterAll queue = .dropping ∨ link'.afterAll queue = link.afterAll (u :: queue)) := by
      obtain rfl | rfl := haf
      · exact hq.2.dropping
      · exact ⟨hq.2, .inr rfl⟩
    obtain ⟨link'', hlink'', hen, hintact''⟩ := ih hlink' ha.1 hl.2 hintact'
    rw [List.append_assoc] at hlink'' hintact''
    refine ⟨link'', hlink'', ?_, hintact''⟩
    obtain hen | hen := hen
    · exact .inl hen
    · exact ha.2.imp hen.trans hen.trans

/-- A batch of which no frame is accepted leaves the watermark where it is. -/
theorem lastSequence_drain_of_none
    (h : (answers V p.decoder p.waitingForKeyframe queue).any Answer.accepted = false) :
    (p.drain V queue).1.lastSequence = p.lastSequence := by
  induction queue generalizing p with
  | nil => rfl
  | cons u queue ih =>
    rw [answers, List.any_cons, Bool.or_eq_false_iff] at h
    obtain ⟨hd, hw, hl, -⟩ := consume_eq (V := V)
    rw [← hd, ← hw] at h
    rw [drain, ih h.2, hl, if_neg (Bool.eq_false_iff.1 h.1)]

/-- A batch whose last frame is accepted sets the watermark to it. -/
theorem lastSequence_drain_of_last {queue : List MediaUnit} {u : MediaUnit}
    (hu : queue.getLast? = some u)
    (h : (answers V p.decoder p.waitingForKeyframe queue).getLast?.any Answer.accepted = true) :
    (p.drain V queue).1.lastSequence = some u.1.sequence := by
  induction queue generalizing p with
  | nil => cases hu
  | cons v queue ih =>
    obtain ⟨hd, hw, hl, -⟩ := consume_eq (V := V)
    cases queue with
    | nil =>
      obtain rfl : v = u := Option.some.inj hu
      have ha : (respond V p.decoder p.waitingForKeyframe v).1.accepted = true := h
      rw [drain, drain, hl, if_pos ha]
    | cons w queue =>
      refine ih hu ?_
      rw [hd, hw]
      exact h

theorem queue_drain : (p.drain V queue).1.queue = p.queue := by
  induction queue generalizing p with
  | nil => rfl
  | cons u queue ih => rw [drain, ih, (consume_eq).2.2.2]

/-! ### Arriving units -/

section

variable (p : ViewerPipeline D P) (u : MediaUnit)

/-- The unit is accepted into the queue. -/
def Admits : Prop :=
  p.isActive = true ∧ u.1.validate = .ok () ∧ u.1.sessionId = p.sessionId ∧
    p.lastSequence.all (· < u.1.sequence) = true ∧ u.2.length = u.1.payloadLen.toNat

/-- Units before this one are missing. -/
def skips : Bool :=
  p.lastSequence.any fun last => last.toNat + 1 < u.number

/-- Dependent frames are dropped once the unit has arrived. -/
def waits : Bool :=
  p.waitingForKeyframe || (p.skips u && !u.keyframe)

/-- What a new unit leaves of the queue. -/
def kept : List MediaUnit :=
  if p.queueCapacity ≤ p.queue.length then p.queue.tail else p.queue

end

/-- The references stay whole: the first unit is a keyframe; a dependent frame after missing units
finds no keyframe in the queue, which would end the wait for one; and what a full queue drops is
followed by a keyframe, unless dependent frames are dropped anyway. -/
structure Continues (p : ViewerPipeline D P) (u : MediaUnit) : Prop where
  first : p.lastSequence = none → u.keyframe = true
  gap : p.skips u = true → u.keyframe = false → ∀ v ∈ p.kept, MediaUnit.keyframe v = false
  full : p.queueCapacity ≤ p.queue.length → p.waits u = false →
    (p.kept ++ [u]).head?.any MediaUnit.keyframe = true

/-- The gap before a later number is empty iff it is the next one. -/
theorem saturatingSub_eq_zero_iff {last seq : UInt64} (h : last < seq) :
    saturatingSub seq (last + 1) = 0 ↔ ¬ last.toNat + 1 < seq.toNat := by
  have hlt : last.toNat < seq.toNat := h
  have hb := seq.toNat_lt
  have ha : (last + 1).toNat = last.toNat + 1 := by
    exact Nat.mod_eq_of_lt (show last.toNat + 1 < 2 ^ 64 by omega)
  rw [← UInt64.toNat_inj, toNat_saturatingSub, ha]
  show seq.toNat - (last.toNat + 1) = 0 ↔ _
  omega

variable {header : MediaHeader} {payload : Bytes}

theorem enqueue_cases :
    ((p.enqueue header payload).1 = p ∨ (p.enqueue header payload).1 = p.drop 1) ∨
      p.Admits (header, payload) ∧
        (p.enqueue header payload).1 = (p.noteGap header).makeRoom.push (header, payload) := by
  unfold enqueue
  split
  · exact .inl (.inl rfl)
  next ha =>
    split
    · exact .inl (.inl rfl)
    next hv =>
      split
      · exact .inl (.inl rfl)
      next hs =>
        split
        · exact .inl (.inr rfl)
        next hlt =>
          split
          · exact .inl (.inl rfl)
          next hlength =>
            -- all gates are passed
            have hl : p.lastSequence.all (· < header.sequence) = true := by
              cases hla : p.lastSequence with
              | none => rfl
              | some last => simpa [hla] using hlt
            refine .inr ⟨⟨not_not.1 ha, hv, not_not.1 hs, hl, ?_⟩, rfl⟩
            exact not_not.1 hlength

theorem noteGap_eq (hl : p.lastSequence.all (· < u.1.sequence) = true) :
    (p.noteGap u.1).waitingForKeyframe = p.waits u ∧ (p.noteGap u.1).queue = p.queue ∧
      (p.noteGap u.1).queueCapacity = p.queueCapacity := by
  unfold noteGap waits
  cases hla : p.lastSequence with
  | none => simp [skips, hla]
  | some last =>
    rw [hla] at hl
    have hg := saturatingSub_eq_zero_iff (of_decide_eq_true hl)
    have hs : p.skips u = true ↔ last.toNat + 1 < u.number := by
      rw [skips, hla]
      exact decide_eq_true_iff
    dsimp only
    split
    next hzero =>
      have hnot : p.skips u = false :=
        Bool.eq_false_iff.2 fun h => hg.1 hzero (hs.1 h)
      simp [hnot]
    next hzero =>
      have hsk : p.skips u = true :=
        hs.2 (not_not.1 fun h => hzero (hg.2 h))
      rw [hsk]
      split
      next hkey => exact ⟨by simp [drop, MediaUnit.keyframe, hkey], rfl, rfl⟩
      next hkey => exact ⟨by simp [noteKeyframeRequest, MediaUnit.keyframe, hkey], rfl, rfl⟩

theorem enqueued_eq {u : MediaUnit} (hu : p.Admits u) :
    ((p.noteGap u.1).makeRoom.push u).waitingForKeyframe = p.waits u ∧
      ((p.noteGap u.1).makeRoom.push u).queue = p.kept ++ [u] := by
  obtain ⟨hw, hq, hc⟩ := noteGap_eq hu.2.2.2.1
  unfold makeRoom kept push
  rw [hq, hc]
  split
  · exact ⟨hw, rfl⟩
  · exact ⟨hw, by rw [hq]⟩

/-! ### The pipeline -/

/-- The references of what is handed are whole, and those of what is queued will be. -/
structure Tracks (p : ViewerPipeline D P) (history : List Handed) : Prop where
  linked : p.isActive = true →
    ∃ link : Link, link.Holds history p.waitingForKeyframe ∧ link.Admissible p.queue ∧
      (link.afterAll p.queue = .dropping ∨
        link.afterAll p.queue = .follows (p.lastSequence.map fun last => last.toNat + 1))
  newest : ∀ u, p.queue.getLast? = some u → p.lastSequence = some u.1.sequence
  intact : ReferencesIntact history

/-- What is left of the queue, with the link after the arrival of a unit. -/
theorem Continues.kept (hc : p.Continues u)
    (hl : link.Holds history p.waitingForKeyframe) (hqu : link.Admissible p.queue) :
    ∃ link' : Link, link'.Holds history (p.waits u) ∧ link'.Admissible p.kept ∧
      (u.keyframe = true ∨ link'.afterAll p.kept = .dropping ∨
        link'.afterAll p.kept = link.afterAll p.queue) := by
  cases hwa : p.waits u with
  | true =>
    -- dependent frames are dropped from the front of the queue on
    refine ⟨.dropping, rfl, ?_⟩
    obtain ⟨hd, hall⟩ := hqu.dropping
    unfold ViewerPipeline.kept
    split
    · cases hq : p.queue with
      | nil => exact ⟨trivial, .inr (.inl rfl)⟩
      | cons v queue =>
        rw [hq] at hqu
        obtain ⟨ht, htail'⟩ := hqu.2.dropping
        exact ⟨ht, .inr htail'⟩
    · exact ⟨hd, .inr hall⟩
  | false =>
    have hw : p.waitingForKeyframe = false := (Bool.or_eq_false_iff.1 hwa).1
    rw [hw] at hl
    refine ⟨link, hl, ?_⟩
    unfold ViewerPipeline.kept
    split
    next hfull =>
      -- what is dropped was a reference, unless a keyframe comes next
      have hh := hc.full hfull hwa
      rw [ViewerPipeline.kept, if_pos hfull] at hh
      cases hq : p.queue with
      | nil =>
        rw [hq] at hh
        exact ⟨trivial, .inl hh⟩
      | cons v queue =>
        rw [hq] at hh hqu
        cases queue with
        | nil => exact ⟨trivial, .inl hh⟩
        | cons w queue =>
          obtain ⟨ha, hall⟩ := hqu.2.of_keyframe hh link
          exact ⟨ha, .inr (.inr hall)⟩
    · exact ⟨hqu, .inr (.inr rfl)⟩

/-- A dependent frame that arrives in turn, or that will be dropped. -/
theorem Continues.admits (hc : p.Continues u) (ha : p.Admits u)
    (hli : link.Holds history (p.waits u))
    (hen : u.keyframe = true ∨ link.afterAll p.kept = .dropping ∨
      link.afterAll p.kept = .follows (p.lastSequence.map fun last => last.toNat + 1)) :
    (link.afterAll p.kept).Admits u := by
  cases hkey : u.keyframe with
  | true => exact .inl hkey
  | false =>
    obtain hen | hen | hen := hen
    · rw [hkey] at hen
      cases hen
    · exact .inr (.inl hen)
    · cases hla : p.lastSequence with
      | none =>
        rw [hc.first hla] at hkey
        cases hkey
      | some last =>
        cases hs : p.skips u with
        | true =>
          -- the wait that begins here is not ended by a keyframe of the queue
          cases link with
          | dropping => exact .inr (.inl (Link.dropping_afterAll (hc.gap hs hkey)))
          | follows next =>
            have hw : p.waits u = true := by simp [waits, hs, hkey]
            rw [hw] at hli
            cases hli.1
        | false =>
          have hl := ha.2.2.2.1
          rw [hla] at hl
          have hlt : last.toNat < u.number := of_decide_eq_true hl
          have hn : ¬ last.toNat + 1 < u.number := by
            rw [skips, hla] at hs
            exact of_decide_eq_false hs
          rw [hen, hla, Option.map_some, show last.toNat + 1 = u.number by omega]
          exact .inr (.inr rfl)

theorem tracks_enqueue {header : MediaHeader} {payload : Bytes} (h : p.Tracks history)
    (hca : p.Admits (header, payload) → p.Continues (header, payload)) :
    (p.enqueue header payload).1.Tracks history := by
  obtain (heq | heq) | ⟨ha, heq⟩ := enqueue_cases
  · rwa [heq]
  · rw [heq]
    exact ⟨h.linked, h.newest, h.intact⟩
  · have hc := hca ha
    obtain ⟨hw, hq⟩ := enqueued_eq ha
    obtain ⟨link, hl, ham, hen⟩ := h.linked ha.1
    obtain ⟨link', hlink', hk, hend'⟩ := hc.kept hl ham
    have ha' := hc.admits ha hlink' (hend'.imp_right fun h' =>
      h'.elim .inl fun h' => h' ▸ hen)
    rw [heq]
    refine ⟨fun _ => ⟨link', ?_, ?_, ?_⟩, ?_, h.intact⟩
    · rwa [hw]
    · rw [hq]
      exact Link.admissible_append.2 ⟨hk, ha'⟩
    · rw [hq, Link.afterAll_append]
      exact Link.after_eq
    · intro u hu
      rw [hq, List.getLast?_concat] at hu
      cases hu
      rfl

/-- The watermark moves forward when a unit arrives. -/
theorem notEarlier_enqueue :
    NotEarlier p.lastSequence (p.enqueue header payload).1.lastSequence := by
  intro a ha
  obtain (heq | heq) | ⟨ham, heq⟩ := enqueue_cases
  · exact ⟨a, by rw [heq]; exact ha, UInt64.le_refl a⟩
  · exact ⟨a, by rw [heq]; exact ha, UInt64.le_refl a⟩
  · refine ⟨header.sequence, by rw [heq]; rfl, ?_⟩
    have hl := ham.2.2.2.1
    rw [ha] at hl
    exact UInt64.le_of_lt (of_decide_eq_true hl)

/-- The batch is decoded well: no keyframe gives no picture while the viewer does not wait for one,
and the last frame is accepted if any is. -/
structure DecodesWell (V : VideoDecoder D P) (p : ViewerPipeline D P) : Prop where
  keyframes : .lost ∉ answers V p.decoder p.waitingForKeyframe p.queue
  last : (answers V p.decoder p.waitingForKeyframe p.queue).any Answer.accepted = true →
    (answers V p.decoder p.waitingForKeyframe p.queue).getLast?.any Answer.accepted = true

/-- A batch that is decoded well leaves the watermark where it is. -/
theorem DecodesWell.lastSequence (hw : p.DecodesWell V) (h : p.Tracks history) :
    ({ p with queue := [] }.drain V p.queue).1.lastSequence = p.lastSequence := by
  cases ha : (answers V p.decoder p.waitingForKeyframe p.queue).any Answer.accepted with
  | false => exact lastSequence_drain_of_none p.queue ha
  | true =>
    have hl := hw.last ha
    cases hu : p.queue.getLast? with
    | none =>
      rw [List.getLast?_eq_none_iff.1 hu] at ha
      cases ha
    | some u =>
      exact (lastSequence_drain_of_last (p := { p with queue := [] }) hu hl).trans
        (h.newest u hu).symm

theorem tracks_process (h : p.Tracks history) (hc : p.isActive = true → p.DecodesWell V) :
    (p.process V).1.Tracks (history ++ (p.process V).2.1) ∧
      (p.process V).1.lastSequence = p.lastSequence := by
  unfold process
  split
  · rw [List.append_nil]
    exact ⟨h, rfl⟩
  next hac =>
    have hw := hc (not_not.1 hac)
    have hl := hw.lastSequence h
    obtain ⟨link, hli, ha, hen⟩ := h.linked (not_not.1 hac)
    obtain ⟨link', hlink', hend', hi⟩ := holds_drain (p := { p with queue := [] }) p.queue
      hli ha hw.keyframes h.intact
    refine ⟨⟨fun _ => ⟨link', hlink', ?_, ?_⟩, ?_, hi⟩, hl⟩
    · rw [queue_drain]
      trivial
    · rw [queue_drain, hl]
      exact hend'.elim .inl fun h' => h' ▸ hen
    · intro u hu
      rw [queue_drain] at hu
      cases hu

def Careful (V : VideoDecoder D P) (p : ViewerPipeline D P) : ViewerInput → Prop
  | .enqueue header payload => p.Admits (header, payload) → p.Continues (header, payload)
  | .process => p.isActive = true → p.DecodesWell V
  | _ => True

instance (p : ViewerPipeline D P) (u : MediaUnit) : Decidable (p.Admits u) :=
  inferInstanceAs (Decidable (_ ∧ _))

instance (p : ViewerPipeline D P) (u : MediaUnit) : Decidable (p.Continues u) :=
  decidable_of_iff ((p.lastSequence = none → u.keyframe = true) ∧
      (p.skips u = true → u.keyframe = false → ∀ v ∈ p.kept, MediaUnit.keyframe v = false) ∧
      (p.queueCapacity ≤ p.queue.length → p.waits u = false →
        (p.kept ++ [u]).head?.any MediaUnit.keyframe = true))
    ⟨fun h => ⟨h.1, h.2.1, h.2.2⟩, fun h => ⟨h.first, h.gap, h.full⟩⟩

instance (p : ViewerPipeline D P) : Decidable (p.DecodesWell V) :=
  decidable_of_iff (.lost ∉ answers V p.decoder p.waitingForKeyframe p.queue ∧
      ((answers V p.decoder p.waitingForKeyframe p.queue).any Answer.accepted = true →
        (answers V p.decoder p.waitingForKeyframe p.queue).getLast?.any Answer.accepted = true))
    ⟨fun h => ⟨h.1, h.2⟩, fun h => ⟨h.keyframes, h.last⟩⟩

instance (p : ViewerPipeline D P) : (input : ViewerInput) → Decidable (p.Careful V input)
  | .enqueue header payload =>
    inferInstanceAs (Decidable (p.Admits (header, payload) → p.Continues (header, payload)))
  | .process => inferInstanceAs (Decidable (p.isActive = true → p.DecodesWell V))
  | .revoke => inferInstanceAs (Decidable True)
  | .finish => inferInstanceAs (Decidable True)
  | .takeFrame => inferInstanceAs (Decidable True)
  | .takeKeyframeRequest => inferInstanceAs (Decidable True)

theorem tracks_new {decoder : D} {si : SessionId} {qc : ℕ}
    (hn : new decoder si qc = .ok p) : p.Tracks [] := by
  unfold new at hn
  split at hn
  · cases hn
  split at hn
  · cases hn
  · cases hn
    exact ⟨fun _ => ⟨.follows none, ⟨rfl, nofun⟩, trivial, .inr rfl⟩, nofun, each_nil⟩

/-- A pipeline that is not active hands nothing to its decoder any more. -/
theorem Tracks.of_inactive {p' : ViewerPipeline D P} (h : p.Tracks history)
    (ha : p'.isActive = false) (hq : p'.queue = []) : p'.Tracks history := by
  refine ⟨fun h' => ?_, fun u hu => ?_, h.intact⟩
  · rw [ha] at h'
    cases h'
  · rw [hq] at hu
    cases hu

theorem tracks_step {i : ViewerInput} (h : p.Tracks history) (hc : p.Careful V i) :
    ((viewer V).step p i).1.Tracks (history ++ ((viewer V).step p i).2) ∧
      NotEarlier p.lastSequence ((viewer V).step p i).1.lastSequence := by
  have hs : NotEarlier p.lastSequence p.lastSequence := fun a ha => ⟨a, ha, UInt64.le_refl a⟩
  cases i with
  | enqueue header payload =>
    refine ⟨?_, notEarlier_enqueue⟩
    rw [viewer, List.append_nil]
    exact tracks_enqueue h hc
  | process =>
    obtain ⟨ht, hl⟩ := tracks_process h hc
    refine ⟨ht, ?_⟩
    rw [viewer, hl]
    exact hs
  | revoke =>
    rw [viewer, List.append_nil]
    exact ⟨h.of_inactive rfl rfl, hs⟩
  | finish =>
    rw [viewer, List.append_nil]
    exact ⟨h.of_inactive (by simp [isActive, finish]) rfl, hs⟩
  | takeFrame | takeKeyframeRequest =>
    rw [viewer, List.append_nil]
    exact ⟨⟨h.linked, h.newest, h.intact⟩, hs⟩

end ViewerPipeline

open ViewerPipeline

/-- **References stay whole.**  In a run of a new pipeline whose steps all meet the condition, a
dependent frame is handed to the decoder only if every frame since the last decoded keyframe was
decoded, and the watermark never goes back. -/
theorem referenced_of_careful {D P : Type} (V : VideoDecoder D P) (decoder : D)
    (sessionId : SessionId) (queueCapacity : ℕ) (p : ViewerPipeline D P)
    (hnew : new decoder sessionId queueCapacity = .ok p) (inputs : List ViewerInput)
    (h : (viewer V).Along (Careful V) p inputs) :
    ReferencesIntact ((viewer V).trace p inputs) ∧ (viewer V).Along (fun p input =>
        NotEarlier p.lastSequence ((viewer V).step p input).1.lastSequence) p inputs := by
  have ht := tracks_new hnew
  constructor
  · have hr := Machine.trace_invariant_along (P := Tracks) h ht
      fun p history input hc ht => (tracks_step ht hc).1
    exact hr.intact
  · refine h.imp_of_invariant (P := fun p => ∃ history, p.Tracks history) ⟨[], ht⟩ ?_ ?_
    · rintro p input ⟨history, ht⟩ hc
      exact (tracks_step ht hc).2
    · rintro p input ⟨history, ht⟩ hc
      exact ⟨_, (tracks_step ht hc).1⟩

/-- A decoder that gives its answers from a list, and then pictures. -/
def scriptedDecoder : VideoDecoder (List (Except ScreenShareError (Option Unit))) Unit where
  decode script _ :=
    match script with
    | [] => ([], .ok (some ()))
    | result :: script => (script, result)
  reset script := script

def samplePipeline (script : List (Except ScreenShareError (Option Unit))) (queueCapacity : ℕ) :
    ViewerPipeline (List (Except ScreenShareError (Option Unit))) Unit where
  decoder := script
  sessionId := GroupEncryption.Block.replicate 16 7
  queue := []
  queueCapacity := queueCapacity
  decoded := none
  lastSequence := none
  waitingForKeyframe := false
  authorized := true
  ended := false
  droppedFrames := 0
  decodeErrors := 0
  keyframeRequests := 0
  pendingKeyframeRequest := false

def sampleUnit (sequence : UInt64) (keyframe : Bool) : ViewerInput :=
  .enqueue
    { version := protocolVersion, sessionId := GroupEncryption.Block.replicate 16 7
      sequence := sequence, timestampUs := sequence, encodeTimestampUs := sequence, codec := 1
      flags := if keyframe then 1 else 0, width := 2, height := 2, configGeneration := 0
      payloadLen := 1 } [0]

/-- After a jump the dependent frames are dropped until the next keyframe. -/
theorem referenced_after_gap :
    ReferencesIntact ((viewer scriptedDecoder).trace (samplePipeline [] 4)
      [sampleUnit 1 true, sampleUnit 2 false, .process, sampleUnit 4 false, .process,
        sampleUnit 5 true, sampleUnit 6 false, .process]) ∧
    (viewer scriptedDecoder).trace (samplePipeline [] 4)
      [sampleUnit 1 true, sampleUnit 2 false, .process, sampleUnit 4 false, .process,
        sampleUnit 5 true, sampleUnit 6 false, .process] =
      [⟨1, true, true⟩, ⟨2, false, true⟩, ⟨5, true, true⟩, ⟨6, false, true⟩] :=
  ⟨(referenced_of_careful scriptedDecoder [] (GroupEncryption.Block.replicate 16 7) 4
    (samplePipeline [] 4) rfl _ (by decide)).1, by decide⟩

/-- A full queue drops frame 2, and frame 3 is handed to the decoder; and after a failed decode the
watermark goes back from 2 to 1. -/
theorem dropped_reference :
    ¬ ReferencesIntact ((viewer scriptedDecoder).trace (samplePipeline [] 1)
      [sampleUnit 1 true, .process, sampleUnit 2 false, sampleUnit 3 false, .process]) ∧
    ((viewer scriptedDecoder).exec (samplePipeline [.ok (some ()), .error "corrupt"] 2)
      [sampleUnit 1 true, sampleUnit 2 false]).lastSequence = some 2 ∧
    ((viewer scriptedDecoder).exec (samplePipeline [.ok (some ()), .error "corrupt"] 2)
      [sampleUnit 1 true, sampleUnit 2 false, .process]).lastSequence = some 1 := by
  refine ⟨fun h => ?_, by decide, by decide⟩
  have ht : (viewer scriptedDecoder).trace (samplePipeline [] 1)
      [sampleUnit 1 true, .process, sampleUnit 2 false, sampleUnit 3 false, .process] =
      [⟨1, true, true⟩] ++ ⟨3, false, true⟩ :: [] := by decide
  obtain ⟨pre, key, post, heq, -, -, hall⟩ := h _ _ _ ht rfl
  obtain ⟨rfl, rfl, rfl⟩ : pre = [] ∧ key = ⟨1, true, true⟩ ∧ post = [] := by
    cases pre with
    | nil => simpa [eq_comm] using heq
    | cons b pre => simp at heq
  obtain ⟨x, hx, -⟩ := hall 2 (by decide) (by decide)
  cases hx

end Boru.ScreenShare
