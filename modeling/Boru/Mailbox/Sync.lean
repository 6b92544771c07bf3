import Mathlib.Data.Finset.Card
import Boru.Mailbox.Replay

/-!
# Synchronisation of mailboxes

A peer that reconnects asks for the envelopes it has missed, page after page.  The server takes the
first envelopes from the cursor on, at most 64 and at most 512 KiB, and leaves out those it has
served before; it reports more pages when 64 are left.  The peer acknowledges each page, and asks
again from the time of the last envelope while there are more.

The page is cut before the envelopes that were served are left out.  So a page with one of them
among its first 64 is reported as the last, whatever follows; and since the last envelope of a page
is the first from the new cursor on, this is so for every second page.

## Main results

* `Sync.sync_complete` : if at every request either none of the first 64 envelopes from the cursor
  on was served before, or all that were not are among them, and they fit in a page, then the peer
  gets all envelopes for it, and is told so after finitely many requests.
* `Sync.served_prefix_hides_envelope` : an envelope behind 64 that were served is not found.
-/

namespace Boru

open MailboxStore List Mailbox

open GroupEncryption (Block Key Failure)

/-- How far in the future the cursor of a request may be. -/
def maxSyncFutureSkewMs : UInt64 := 300000

structure SyncServer where
  crypto : MailboxCrypto
  /-- The short form of a key, for messages. -/
  fmtShort : PublicKey → String
  file : Option MailboxStore

structure SyncResponsePage where
  envelopes : List MailboxEnvelope
  /-- Creation timestamp of the last envelope in this page. -/
  lastCreatedAtMs : Option UInt64
  /-- True when more pages exist after this one. -/
  hasMore : Bool
  deriving DecidableEq

namespace SyncServer

variable (S : SyncServer)

def loaded : Option MailboxStore :=
  match load S.file with
  | .ok store => store
  | .error _ => none

variable (served : Finset Key)

variable (requester : PublicKey)

/-- The provider of pages.  The hash of an encoded envelope identifies it among those served. -/
def pendingFn (sinceMs now later : UInt64) : List MailboxEnvelope × Bool :=
  let page := match S.loaded with
    | some store => (store.pendingForRecipientSince S.crypto requester sinceMs now later).1
    | none => []
  let page := page.filter fun e => S.crypto.fingerprint e ∉ served
  (page, maxSyncEnvelopes ≤ page.length)

/-- Handle a request; `now`, `now₁` and `now₂` are the readings of the clock. -/
def handleRequest (sinceMs now now₁ now₂ : UInt64) : Except Failure (List MailboxEnvelope × Bool) :=
  if saturatingAdd now maxSyncFutureSkewMs < sinceMs then
    .error ⟨"sync request from " ++ S.fmtShort requester ++ " has since_ms " ++ toString sinceMs ++
      " which is >" ++ toString maxSyncFutureSkewMs ++ "ms in the future (now=" ++ toString now ++
      ")"⟩
  else
    let floor := saturatingSub now maxSyncLookback
    let effectiveSince := if sinceMs < floor then floor else sinceMs
    .ok (S.pendingFn served requester effectiveSince now₁ now₂)

def respond (sinceMs now now₁ now₂ : UInt64) : Except Failure SyncResponsePage := do
  let (envelopes, hasMore) ← S.handleRequest served requester sinceMs now now₁ now₂
  pure ⟨envelopes, envelopes.getLast?.map MailboxEnvelope.createdAt, hasMore⟩

end SyncServer

/-! ### The loop of the requester -/

inductive SyncProgress where
  /-- It asks for the next page. -/
  | running
  /-- It was told that there are no more pages. -/
  | finished
  | failed
  deriving DecidableEq

structure Sync where
  clock : UInt64
  /-- The envelopes served before, by their hashes. -/
  served : Finset Key
  cursor : UInt64
  got : List MailboxEnvelope
  progress : SyncProgress

namespace Sync

def start (clock : UInt64) (served : Finset Key) : Sync := ⟨clock, served, 0, [], .running⟩

/-- The readings of the clock during a request. -/
structure Readings where
  now : UInt64
  now₁ : UInt64
  now₂ : UInt64

/-- Readings that do not go back. -/
def readings (clock : UInt64) (r : Readings) : Readings :=
  let now := reading clock r.now
  let now₁ := reading now r.now₁
  ⟨now, now₁, reading now₁ r.now₂⟩

variable (S : SyncServer)

/-- The response is acknowledged, its envelopes are recorded as served, and the cursor moves to the
last of them. -/
def receive (s : Sync) (clock : UInt64) : Except Failure SyncResponsePage → Sync
  | .error _ => { s with clock, progress := .failed }
  | .ok page =>
    { clock
      served := s.served ∪ (page.envelopes.map S.crypto.fingerprint).toFinset
      cursor := if page.hasMore then page.lastCreatedAtMs.getD s.cursor else s.cursor
      got := s.got ++ page.envelopes
      progress := if page.hasMore then .running else .finished }

variable (requester : PublicKey)

variable (s : Sync)

variable (r : Readings)

def step : Sync :=
  match s.progress with
  | .running =>
    let r := readings s.clock r
    s.receive S r.now₂ (S.respond s.served requester s.cursor r.now r.now₁ r.now₂)
  | _ => s

def machine : Machine Sync Readings Unit :=
  ⟨fun s r => (s.step S requester r, [])⟩

/-- The envelopes for the requester from the cursor on, in the order in which they are served. -/
def ahead : List MailboxEnvelope :=
  let r := readings s.clock r
  match S.loaded with
  | some store => (store.expire r.now₁).sorted S.crypto fun e =>
    e.recipient.identity = requester && s.cursor ≤ e.createdAt &&
      saturatingSub r.now₂ maxSyncLookback ≤ e.createdAt
  | none => []

/-- The cursor is not too far in the future, the first 64 envelopes ahead fit in a page, and either
none of them was served before or all that were not are among them. -/
def Smooth : Prop :=
  let es := s.ahead S requester r
  s.cursor ≤ saturatingAdd (readings s.clock r).now maxSyncFutureSkewMs ∧
    ((es.take maxSyncEnvelopes).map (encodedSize S.crypto)).sum ≤ maxSyncResponseBytes ∧
    ((∀ e ∈ es.take maxSyncEnvelopes, S.crypto.fingerprint e ∉ s.served) ∨
      ∀ e ∈ es.drop maxSyncEnvelopes, S.crypto.fingerprint e ∈ s.served)

instance (S : SyncServer) (requester : PublicKey) (s : Sync) (r : Readings) :
    Decidable (Smooth S requester s r) := by
  unfold Smooth
  infer_instance

/-- The envelopes of a mailbox that are retained at a time. -/
def retained (clock : UInt64) : List MailboxEnvelope :=
  match S.loaded with
  | some store => (store.expire clock).values
  | none => []

/-- The requester has got every envelope for it that is retained and was not served before. -/
def Complete (served : Finset Key) (s : Sync) : Prop :=
  ∀ e ∈ retained S s.clock, e.recipient.identity = requester → S.crypto.fingerprint e ∉ served →
    e ∈ s.got

/-! ### Pages -/

theorem ttl_of_loaded {S : SyncServer} {store : MailboxStore} (h : S.loaded = some store) :
    store.ttl = defaultMailboxTtl := by
  unfold SyncServer.loaded at h
  split at h
  · rename_i o hl
    subst h
    unfold load at hl
    split at hl
    · cases hl
    · split_ifs at hl
      cases hl
      rfl
  · cases h

section Page

variable {S : SyncServer} {requester : PublicKey} {s : Sync} {r : Readings}

variable (clock : UInt64)

theorem le_now₁ (r : Readings) :
    (readings clock r).now.toNat ≤ (readings clock r).now₁.toNat := le_reading _ _

theorem now₁_le_now₂ (r : Readings) :
    (readings clock r).now₁.toNat ≤ (readings clock r).now₂.toNat := le_reading _ _

theorem clock_le_now₂ : clock.toNat ≤ (readings clock r).now₂.toNat :=
  (le_reading clock r.now).trans ((le_now₁ clock r).trans (now₁_le_now₂ clock r))

/-- The cursor, moved to the start of the retention period once by the protocol and once by the
provider. -/
theorem clamped_le_iff {c f f₂ x : UInt64} (h : f.toNat ≤ f₂.toNat) :
    (if (if c < f then f else c) < f₂ then f₂
      else if c < f then f else c) ≤ x ↔ c ≤ x ∧ f₂ ≤ x := by
  simp only [UInt64.lt_iff_toNat_lt]
  split_ifs <;> simp only [UInt64.le_iff_toNat_le] <;> omega

/-- The page before the envelopes served are left out. -/
theorem page_eq_fillPage (store : MailboxStore) (hs : S.loaded = some store) :
    (store.pendingForRecipientSince S.crypto requester
      (if s.cursor < saturatingSub (readings s.clock r).now maxSyncLookback then
        saturatingSub (readings s.clock r).now maxSyncLookback else s.cursor)
      (readings s.clock r).now₁ (readings s.clock r).now₂).1 =
      fillPage S.crypto 0 0 (s.ahead S requester r) := by
  unfold ahead
  rw [hs]
  dsimp only [pendingForRecipientSince]
  congr 2
  funext e
  have hf : (saturatingSub (readings s.clock r).now maxSyncLookback).toNat ≤
      (saturatingSub (readings s.clock r).now₂ maxSyncLookback).toNat := by
    have h₁ := le_now₁ s.clock r
    have h₂ := now₁_le_now₂ s.clock r
    rw [toNat_saturatingSub, toNat_saturatingSub]
    omega
  rw [Bool.eq_iff_iff]
  simp only [Bool.and_eq_true, decide_eq_true_eq, clamped_le_iff hf, and_assoc]

def page (S : SyncServer) (requester : PublicKey) (s : Sync) (r : Readings) :
    List MailboxEnvelope :=
  ((s.ahead S requester r).take maxSyncEnvelopes).filter fun e => S.crypto.fingerprint e ∉ s.served

/-- **The response to a request.** -/
theorem respond_of_smooth (h : Smooth S requester s r) :
    S.respond s.served requester s.cursor (readings s.clock r).now (readings s.clock r).now₁
      (readings s.clock r).now₂ =
      .ok ⟨s.page S requester r, (s.page S requester r).getLast?.map MailboxEnvelope.createdAt,
        maxSyncEnvelopes ≤ (s.page S requester r).length⟩ := by
  obtain ⟨hc, hf, -⟩ := h
  have hp : S.pendingFn s.served requester
      (if s.cursor < saturatingSub (readings s.clock r).now maxSyncLookback then
        saturatingSub (readings s.clock r).now maxSyncLookback else s.cursor)
      (readings s.clock r).now₁ (readings s.clock r).now₂ =
      (s.page S requester r, decide (maxSyncEnvelopes ≤ (s.page S requester r).length)) := by
    unfold SyncServer.pendingFn page
    cases hs : S.loaded with
    | none =>
      have ha : s.ahead S requester r = [] := by
        unfold ahead
        rw [hs]
      rw [ha]
      rfl
    | some store =>
      dsimp only
      rw [page_eq_fillPage store hs, fillPage_eq_take (by simpa using hf)]
      rfl
  unfold SyncServer.respond SyncServer.handleRequest
  rw [if_neg (by rw [UInt64.not_lt]; exact hc)]
  dsimp only
  rw [hp]
  rfl

variable {e : MailboxEnvelope}

theorem mem_page :
    e ∈ s.page S requester r ↔
      e ∈ (s.ahead S requester r).take maxSyncEnvelopes ∧ S.crypto.fingerprint e ∉ s.served := by
  unfold page
  rw [mem_filter, decide_eq_true_eq]

theorem mem_retained {clock : UInt64} :
    e ∈ retained S clock ↔ ∃ store, S.loaded = some store ∧ e ∈ (store.expire clock).values := by
  unfold retained
  cases S.loaded with
  | none => exact ⟨nofun, nofun⟩
  | some store =>
    refine ⟨fun he => ⟨store, rfl, he⟩, ?_⟩
    rintro ⟨_, ⟨⟩, he⟩
    exact he

theorem mem_ahead_iff :
    e ∈ s.ahead S requester r ↔ ∃ store, S.loaded = some store ∧
      e ∈ (store.expire (readings s.clock r).now₁).values ∧ e.recipient.identity = requester ∧
      s.cursor ≤ e.createdAt ∧
      saturatingSub (readings s.clock r).now₂ maxSyncLookback ≤ e.createdAt := by
  unfold ahead
  cases S.loaded with
  | none => exact ⟨nofun, nofun⟩
  | some store =>
    dsimp only
    rw [sorted, mem_insertionSort, mem_filter]
    simp only [Bool.and_eq_true, decide_eq_true_eq, Option.some.injEq, exists_eq_left', and_assoc]

/-- An envelope for the requester that is retained and not before the cursor is ahead. -/
theorem mem_ahead (he : e ∈ retained S (readings s.clock r).now₂)
    (hr : e.recipient.identity = requester) (hc : s.cursor.toNat ≤ e.createdAt.toNat) :
    e ∈ s.ahead S requester r := by
  obtain ⟨store, hs, he⟩ := mem_retained.1 he
  obtain ⟨hv, hf⟩ := mem_values_expire.1 he
  have hle := now₁_le_now₂ s.clock r
  refine mem_ahead_iff.2 ⟨store, hs, mem_values_expire.2 ⟨hv, by omega⟩, hr, hc, ?_⟩
  -- the retention period is also how far back a request may look
  have hl : store.ttl = maxSyncLookback := ttl_of_loaded hs
  rw [hl] at hf
  rw [UInt64.le_iff_toNat_le, toNat_saturatingSub]
  omega

theorem mem_content_of_mem_ahead (he : e ∈ s.ahead S requester r) :
    ∃ store, S.loaded = some store ∧ e ∈ store.values := by
  obtain ⟨store, hs, he, -⟩ := mem_ahead_iff.1 he
  exact ⟨store, hs, (mem_values_expire.1 he).1⟩

/-- Envelopes are retained for less and less time. -/
theorem retained_mono {clock clk' : UInt64} (h : clock.toNat ≤ clk'.toNat)
    (he : e ∈ retained S clk') : e ∈ retained S clock := by
  obtain ⟨store, hs, he⟩ := mem_retained.1 he
  obtain ⟨hv, hf⟩ := mem_values_expire.1 he
  exact mem_retained.2 ⟨store, hs, mem_values_expire.2 ⟨hv, by omega⟩⟩

/-- The last of the first envelopes was not created after any that follow. -/
theorem getLast_take_le {n : ℕ} {last : MailboxEnvelope} (he : e ∈ (s.ahead S requester r).drop n)
    (hl : ((s.ahead S requester r).take n).getLast? = some last) :
    last.createdAt.toNat ≤ e.createdAt.toNat := by
  have hs : (s.ahead S requester r).Pairwise fun a b =>
      a.createdAt.toNat ≤ b.createdAt.toNat := by
    unfold ahead
    cases S.loaded with
    | none => exact List.Pairwise.nil
    | some store => exact pairwise_sorted _ _ _
  rw [← take_append_drop n (s.ahead S requester r), pairwise_append] at hs
  exact hs.2.2 last (mem_of_getLast? hl) e he

def more (S : SyncServer) (requester : PublicKey) (s : Sync) (r : Readings) : Bool :=
  maxSyncEnvelopes ≤ (s.page S requester r).length

theorem step_of_smooth (hr : s.progress = .running) (h : Smooth S requester s r) :
    s.step S requester r =
      { clock := (readings s.clock r).now₂
        served := s.served ∪ ((s.page S requester r).map S.crypto.fingerprint).toFinset
        cursor := if s.more S requester r then
          ((s.page S requester r).getLast?.map MailboxEnvelope.createdAt).getD s.cursor
          else s.cursor
        got := s.got ++ s.page S requester r
        progress := if s.more S requester r then .running else .finished } := by
  have hstep : s.step S requester r = s.receive S (readings s.clock r).now₂
      (S.respond s.served requester s.cursor (readings s.clock r).now (readings s.clock r).now₁
        (readings s.clock r).now₂) := by
    simp only [step, hr]
  rw [hstep, respond_of_smooth h]
  rfl

theorem step_of_not_running (h : s.progress ≠ .running) : s.step S requester r = s := by
  cases hp : s.progress with
  | running => exact absurd hp h
  | finished | failed => simp only [step]

end Page

/-! ### Runs -/

/-- No two envelopes of the mailbox have the same hash. -/
def CollisionFree : Prop :=
  ∀ store, S.loaded = some store → ∀ a ∈ store.values, ∀ b ∈ store.values,
    S.crypto.fingerprint a = S.crypto.fingerprint b → a = b

/-- What the requester has not got is still ahead of it. -/
structure OnTrack (S : SyncServer) (requester : PublicKey) (served : Finset Key) (s : Sync) :
    Prop where
  alive : s.progress ≠ .failed
  reached : ∀ e ∈ retained S s.clock, e.recipient.identity = requester →
    S.crypto.fingerprint e ∉ served → e ∈ s.got ∨
      s.progress = .running ∧ S.crypto.fingerprint e ∉ s.served ∧ s.cursor.toNat ≤ e.createdAt.toNat

section Run

variable {S : SyncServer} {q : PublicKey} {served : Finset Key} {s : Sync} {r : Readings}

/-- The envelopes ahead that a request does not return are ahead of the next one, and there is
one. -/
theorem skipped_of_smooth (hc : CollisionFree S) (h : Smooth S q s r) {e : MailboxEnvelope}
    (he : e ∈ s.ahead S q r) (hs : S.crypto.fingerprint e ∉ s.served)
    (hsk : e ∉ s.page S q r) :
    maxSyncEnvelopes ≤ (s.page S q r).length ∧
      S.crypto.fingerprint e ∉ (s.page S q r).map S.crypto.fingerprint ∧
      (((s.page S q r).getLast?.map MailboxEnvelope.createdAt).getD s.cursor).toNat ≤
        e.createdAt.toNat := by
  have hb : e ∈ (s.ahead S q r).drop maxSyncEnvelopes := by
    rw [← take_append_drop maxSyncEnvelopes (s.ahead S q r), mem_append] at he
    exact he.resolve_left fun ht => hsk (mem_page.2 ⟨ht, hs⟩)
  -- some envelope behind the page was not served, so none of the page was
  have hp : s.page S q r = (s.ahead S q r).take maxSyncEnvelopes := by
    refine filter_eq_self.2 fun a ha => decide_eq_true ?_
    rcases h.2.2 with hn | hall
    · exact hn a ha
    · exact absurd (hall e hb) hs
  have hl : ((s.ahead S q r).take maxSyncEnvelopes).length = maxSyncEnvelopes := by
    have hpos := length_pos_of_mem hb
    rw [length_drop] at hpos
    rw [length_take]
    omega
  refine ⟨by rw [hp, hl], fun hmem => ?_, ?_⟩
  · obtain ⟨a, ha, heq⟩ := mem_map.1 hmem
    obtain ⟨store, hst, hv⟩ := mem_content_of_mem_ahead he
    obtain ⟨store', hstore', hvalue'⟩ :=
      mem_content_of_mem_ahead (mem_of_mem_take (mem_page.1 ha).1)
    cases hst.symm.trans hstore'
    exact hsk (hc store hst a hvalue' e hv heq ▸ ha)
  · rw [hp]
    cases hla : ((s.ahead S q r).take maxSyncEnvelopes).getLast? with
    | none =>
      rw [getLast?_eq_none_iff] at hla
      rw [hla] at hl
      cases hl
    | some last => exact getLast_take_le hb hla

/-- **One request.** -/
theorem OnTrack.step (hc : CollisionFree S) (ht : OnTrack S q served s)
    (h : Smooth S q s r) : OnTrack S q served (s.step S q r) := by
  by_cases hru : s.progress = .running
  · rw [step_of_smooth hru h]
    refine ⟨by dsimp only; split_ifs <;> exact nofun, fun e he hr hs => ?_⟩
    rcases ht.reached e (retained_mono (clock_le_now₂ s.clock) he) hr hs with
      hgot | ⟨-, hn, hcu⟩
    · exact .inl (mem_append_left _ hgot)
    · have ha := mem_ahead he hr hcu
      by_cases hp : e ∈ s.page S q r
      · exact .inl (mem_append_right _ hp)
      · obtain ⟨hm, hf, hl⟩ := skipped_of_smooth hc h ha hn hp
        have hm : s.more S q r = true := decide_eq_true hm
        refine .inr ⟨if_pos hm, ?_, by rw [if_pos hm]; exact hl⟩
        rw [Finset.mem_union, mem_toFinset, not_or]
        exact ⟨hn, hf⟩
  · rw [step_of_not_running hru]
    exact ht

def unserved (S : SyncServer) (s : Sync) : Finset MailboxEnvelope :=
  match S.loaded with
  | some store => store.values.toFinset.filter fun e => S.crypto.fingerprint e ∉ s.served
  | none => ∅

/-- A request after which there is another one has served an envelope. -/
theorem card_unserved_step (hr : s.progress = .running) (h : Smooth S q s r)
    (hn : (s.step S q r).progress = .running) :
    (unserved S (s.step S q r)).card < (unserved S s).card := by
  rw [step_of_smooth hr h] at hn ⊢
  dsimp only at hn
  have hm : s.more S q r = true := by
    by_contra hm
    rw [if_neg hm] at hn
    cases hn
  obtain ⟨e, he⟩ : ∃ e, e ∈ s.page S q r :=
    exists_mem_of_length_pos (Nat.lt_of_lt_of_le (by decide) (of_decide_eq_true hm))
  obtain ⟨hah, hnw⟩ := mem_page.1 he
  obtain ⟨store, hs, hv⟩ := mem_content_of_mem_ahead (mem_of_mem_take hah)
  unfold unserved
  rw [hs]
  refine Finset.card_lt_card ((Finset.ssubset_iff_of_subset fun a ha => ?_).2 ⟨e, ?_, ?_⟩)
  · rw [Finset.mem_filter, Finset.mem_union, not_or] at ha
    exact Finset.mem_filter.2 ⟨ha.1, ha.2.1⟩
  · exact Finset.mem_filter.2 ⟨mem_toFinset.2 hv, hnw⟩
  · rw [Finset.mem_filter, Finset.mem_union, not_and, not_not]
    exact fun _ => .inr (mem_toFinset.2 (mem_map_of_mem he))

theorem exec_of_not_running (h : s.progress ≠ .running) (is : List Readings) :
    (machine S q).exec s is = s := by
  induction is with
  | nil => rfl
  | cons r is ih =>
    show (machine S q).exec (s.step S q r) is = s
    rw [step_of_not_running h, ih]

/-- A requester that has not been told so has made no more requests than there were envelopes that
had not been served. -/
theorem card_unserved_exec {is : List Readings} (h : (machine S q).Along (Smooth S q) s is)
    (hr : ((machine S q).exec s is).progress = .running) :
    (unserved S ((machine S q).exec s is)).card + is.length ≤ (unserved S s).card := by
  induction is generalizing s with
  | nil => exact le_refl _
  | cons r is ih =>
    have hs : s.progress = .running := by
      by_contra hs
      rw [exec_of_not_running hs] at hr
      exact hs hr
    have hn : (s.step S q r).progress = .running := by
      by_contra hn
      have hec : (machine S q).exec s (r :: is) = s.step S q r :=
        exec_of_not_running hn is
      rw [hec] at hr
      exact hn hr
    have hstep := card_unserved_step hs h.1 hn
    have hre := ih h.2 hr
    have hec : (machine S q).exec s (r :: is) =
        (machine S q).exec ((machine S q).step s r).1 is := rfl
    have hn' : ((machine S q).step s r).1 = s.step S q r := rfl
    rw [hn'] at hre hec
    rw [hec, length_cons]
    omega

end Run

/-- **Synchronisation is complete.**  If at every request the cursor is not too far in the future,
the first 64 envelopes ahead fit in a page, and either none of them was served before or all that
were not are among them, then the requester has got every envelope for it that is retained and was
not served before when it is told that there are no more; and it has been told so once it has made
more requests than there were envelopes that had not been served. -/
theorem sync_complete (S : SyncServer) (hc : CollisionFree S) (requester : PublicKey)
    (clock : UInt64) (served : Finset Key) (is : List Readings)
    (h : (machine S requester).Along (Smooth S requester) (start clock served) is) :
    (∀ pre, pre <+: is →
      ((machine S requester).exec (start clock served) pre).progress = .finished →
      Complete S requester served ((machine S requester).exec (start clock served) pre)) ∧
    ((unserved S (start clock served)).card < is.length →
      ((machine S requester).exec (start clock served) is).progress = .finished) := by
  have hst : OnTrack S requester served (start clock served) :=
    ⟨nofun, fun e _ _ hse => .inr ⟨rfl, hse, Nat.zero_le _⟩⟩
  have ht : ∀ pre, pre <+: is →
      OnTrack S requester served ((machine S requester).exec (start clock served) pre) := by
    rintro pre ⟨post, rfl⟩
    exact Machine.exec_invariant_along (Machine.along_append.1 h).1 hst
      fun s r hr hs => hs.step hc hr
  refine ⟨fun pre hpr hf e he hre hse => ?_, fun hl => ?_⟩
  · rcases (ht pre hpr).reached e he hre hse with hg | ⟨hru, -⟩
    · exact hg
    · rw [hf] at hru
      cases hru
  · have ha := (ht is (prefix_refl is)).alive
    cases hp : ((machine S requester).exec (start clock served) is).progress with
    | running =>
      have hb := card_unserved_exec h hp
      omega
    | finished => rfl
    | failed => exact absurd hp ha

/-- A server whose mailbox has `n` envelopes for one recipient, created one after another. -/
def backlog (n : ℕ) : SyncServer where
  crypto := plainCrypto
  fmtShort _ := "0101010101"
  file := some { emptyAt with
    entries := (range n).foldl (fun entries i =>
      let e := MailboxEnvelope.v2 (envelopeAt (UInt64.ofNat i + 1) (UInt8.ofNat i))
      entries.insert (plainCrypto.messageId e) e) ∅ }

/-- The hashes of the first `n` of the envelopes. -/
def firstServed (n : ℕ) : Finset Key :=
  ((range n).map fun i => Block.replicate 32 (UInt8.ofNat i)).toFinset

def twoRequests : List Readings := [⟨100, 100, 100⟩, ⟨100, 100, 100⟩]

theorem backlog_collisionFree : CollisionFree (backlog 3) := by
  intro store hs
  obtain rfl : store = ((backlog 3).loaded).get (by decide +kernel) := by
    simp [hs]
  decide +kernel

theorem backlog_synced :
    Complete (backlog 3) recipient.identity (firstServed 1)
      ((machine (backlog 3) recipient.identity).exec (start 100 (firstServed 1)) twoRequests) := by
  have h : (machine (backlog 3) recipient.identity).Along
      (Smooth (backlog 3) recipient.identity) (start 100 (firstServed 1)) twoRequests := by
    decide +kernel
  exact (sync_complete (backlog 3) backlog_collisionFree recipient.identity 100
    (firstServed 1) twoRequests h).1 twoRequests (prefix_refl _) (by decide +kernel)

instance (S : SyncServer) (requester : PublicKey) (served : Finset Key) (s : Sync) :
    Decidable (Complete S requester served s) := by
  unfold Complete
  infer_instance

/-- Of 65 envelopes the first 64 were served before.  The requester gets an empty page and is told
that there are no more. -/
theorem served_prefix_hides_envelope :
    let s := (machine (backlog 65) recipient.identity).exec (start 100 (firstServed 64))
      [⟨100, 100, 100⟩]
    s.progress = .finished ∧ s.got = [] ∧
      ¬ Complete (backlog 65) recipient.identity (firstServed 64) s := by
  decide +kernel

end Sync

end Boru
