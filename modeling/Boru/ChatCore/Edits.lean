import Boru.ChatCore.NetEvent

/-!
# Whose messages are edited and deleted

An edit or a deletion names a message by the hash of its contents, and the first entry of the log
with this hash is changed.  Neither the entry nor the callback knows an author.  So a peer changes
the messages of the local user and of other peers, and when two peers sent the same text, the second
one changes the entry of the first when it edits its own.

The author of every entry is recorded beside the log: entries are appended by callbacks, and the
callback of a remote entry bears the sender of its message.

* `own_entries_iff` : an edit or a deletion changes entries of its sender only, exactly when the
  first entry with the hash is the sender's, or would not change, or the message is dropped.
-/

namespace Boru.ChatCore

open GroupEncryption (Block)

inductive Author where
  | system
  | localUser
  | peer (peer : PublicKey)
  deriving DecidableEq

/-- The authors of the entries that a callback appends. -/
def Callback.authors : Callback → List Author
  | .pushSystem _ | .onNeighborStatusChange _ _ => [.system]
  | .pushRemote peer _ _ _ _ | .pushRemoteWithIdentity peer _ _ _ _ _
  | .pushRemoteWithMentions peer _ _ _ _ _ => [.peer peer]
  | _ => []

/-- A chat and the authors of its entries. -/
structure Authored where
  chat : Chat
  authors : List Author

namespace Authored

def entries (w : Authored) : List ChatEntry := w.chat.app.entries

def Aligned (w : Authored) : Prop := w.authors.length = w.entries.length

/-- Handle an event, and record the authors of the entries it appends. -/
def next (C : ChatCodec) (w : Authored) (d : Delivery) : Authored where
  chat := (w.chat.handle C d).chat
  authors := w.authors ++ (w.chat.handle C d).calls.flatMap Callback.authors

def firstIdx (w : Authored) (hash : MessageHash) : ℕ := w.entries.findIdx (·.hasHash hash)

/-- Handling the event changes the text of entries of the author only. -/
def ChangesOnly (C : ChatCodec) (w : Authored) (d : Delivery) (author : Author) : Prop :=
  ∀ (k : ℕ) (e e' : ChatEntry), w.entries[k]? = some e → (w.next C d).entries[k]? = some e' →
    e'.body ≠ e.body → w.authors[k]? = some author

end Authored

/-- The handler with recorded authors, as a machine. -/
def authored (C : ChatCodec) : Machine Authored Delivery Callback where
  step w d := (w.next C d, (w.chat.handle C d).calls)

/-- The entry that an edit or a deletion names, and the text that replaces its own. -/
def Message.rewrites : Message → Option (MessageHash × String)
  | .edit hash newText => some (hash, newText)
  | .delete hash => some (hash, "[message deleted]")
  | _ => none

/-! ### Entries and authors -/

namespace AppState

variable {C : ChatCodec} {clock : Clock}

theorem length_entries_call (app : AppState) (cb : Callback) :
    (app.call C clock cb).entries.length = app.entries.length + cb.authors.length := by
  cases cb with
  | applyRoomAuthorization t ev =>
    exact congrArg List.length (app.sameLog_applyRoomAuthorization).entries
  | recordPeerTicket peer ticket =>
    exact congrArg List.length (app.sameLog_recordPeerTicket).entries
  | onTyping t peer active =>
    exact congrArg List.length (app.sameLog_onTyping).entries
  | onNeighborStatusChange peer o =>
    cases o <;>
      simp [call, Callback.authors, onNeighborStatusChange, pushEntry, recordActivity,
        (app.sameLog_markNeighbor).entries]
  | pushSystem | pushRemote | pushRemoteWithIdentity | pushRemoteWithMentions =>
    simp [call, pushEntry, Callback.authors]
  | editMessage | deleteMessage | addReaction =>
    simp [call, updateEntry, Callback.authors]
  | applyReactionEvent _ _ _ op => cases op <;> simp [call, updateEntry, Callback.authors]
  | _ => rfl

theorem length_entries_foldl_call (clock : Clock) (c : List Callback) (app : AppState) :
    (c.foldl (call C clock) app).entries.length =
      app.entries.length + (c.flatMap Callback.authors).length := by
  induction c generalizing app with
  | nil => rfl
  | cons cb c ih =>
    rw [List.foldl_cons, ih, length_entries_call, List.flatMap_cons, List.length_append]
    omega

end AppState

namespace Authored

variable {C : ChatCodec} {w : Authored} {d : Delivery}

/-- Every event keeps the authors aligned with the entries. -/
theorem Aligned.next (h : w.Aligned) (d : Delivery) : (w.next C d).Aligned := by
  have hlen := AppState.length_entries_foldl_call (C := C) d.clock (w.chat.handle C d).calls
    w.chat.app
  rw [← w.chat.app_handle d] at hlen
  unfold Aligned at h ⊢
  simp only [Authored.next, entries, List.length_append] at h ⊢
  omega

/-- After every run every entry has an author, and the local key is the same. -/
theorem aligned_exec (h : w.Aligned) (run : List Delivery) :
    ((authored C).exec w run).Aligned ∧
      ((authored C).exec w run).chat.app.localPublic = w.chat.app.localPublic :=
  Machine.exec_invariant (P := fun v : Authored =>
      v.Aligned ∧ v.chat.app.localPublic = w.chat.app.localPublic) ⟨h, rfl⟩
    (fun v d hv => ⟨hv.1.next d, (v.chat.localPublic_handle d).trans hv.2⟩) run

end Authored

/-! ### Edits and deletions -/

section edits

variable {C : ChatCodec} {s : Chat} {d : Delivery} {m : Incoming} {hash : MessageHash}
  {text : String}

variable (hm : m.message.rewrites = some (hash, text))

include hm

theorem ne_roomAuthorization_of_rewrites (event : Bytes) :
    m.message ≠ .roomAuthorization event := by
  intro h
  rw [h] at hm
  cases hm

/-- An edit or a deletion of a remote peer is dispatched as one callback, which replaces the text of
the first entry with the hash. -/
theorem entries_dispatch {f : Frontend} (hr : m.sender ≠ f.app.localPublic) :
    ∃ g : ChatEntry → ChatEntry, (∀ e, (g e).body = text) ∧
      (dispatch C d m f).app.entries =
        f.app.entries.modify (f.app.entries.findIdx (·.hasHash hash)) g := by
  obtain ⟨sender, message, sentAt⟩ := m
  cases message with
  | edit oh nt =>
    obtain ⟨rfl, rfl⟩ := Prod.mk.inj (Option.some.inj hm)
    have hd : dispatch C d ⟨sender, .edit oh nt, sentAt⟩ f =
      f.invoke C d.clock (.editMessage oh nt) := if_pos hr
    exact ⟨(·.edit nt), fun e => rfl, by rw [hd]; rfl⟩
  | delete mh =>
    obtain ⟨rfl, rfl⟩ := Prod.mk.inj (Option.some.inj hm)
    have hd : dispatch C d ⟨sender, .delete mh, sentAt⟩ f =
      f.invoke C d.clock (.deleteMessage mh) := if_pos hr
    exact ⟨ChatEntry.delete, fun e => rfl, by rw [hd]; rfl⟩
  | _ => cases hm

/-- What an edit or a deletion of a remote peer that passes every check does to the log. -/
theorem entries_of_admits (hr : m.sender ≠ s.app.localPublic) (h : s.Admits C d m) :
    ∃ g : ChatEntry → ChatEntry, (∀ e, (g e).body = text) ∧
      (s.handleMessage C d m).chat.app.entries =
        s.app.entries.modify (s.app.entries.findIdx (·.hasHash hash)) g := by
  rw [Chat.handleMessage_eq_handleContent (ne_roomAuthorization_of_rewrites hm),
    Chat.handleContent_of_admits h]
  exact entries_dispatch (f := Frontend.invoke C d.clock ⟨s.app, []⟩ (.recordActivity m.sender)) hm
    hr

/-- An edit or a deletion that fails a check leaves the log alone. -/
theorem entries_of_not_admits (h : ¬ s.Admits C d m) :
    (s.handleMessage C d m).chat.app.entries = s.app.entries := by
  rw [Chat.handleMessage_eq_handleContent (ne_roomAuthorization_of_rewrites hm)]
  obtain ⟨-, calls, rfl | rfl, -, ha⟩ := Chat.handleContent_of_not_admits h
  · rw [ha]
    rfl
  · rw [ha]
    rfl

end edits

namespace Authored

variable {C : ChatCodec} {w : Authored} {d : Delivery} {author : Author}

/-- When the text of one entry is replaced, only entries of the author change iff that one is the
author's or has the text already. -/
theorem changesOnly_iff_of_modify {i : ℕ} {g : ChatEntry → ChatEntry} {text : String}
    (hg : ∀ e, (g e).body = text) (h : (w.next C d).entries = w.entries.modify i g) :
    w.ChangesOnly C d author ↔
      ∀ e, w.entries[i]? = some e → w.authors[i]? = some author ∨ e.body = text := by
  unfold ChangesOnly
  simp only [h]
  constructor
  · intro ho e he
    by_cases ht : e.body = text
    · exact .inr ht
    · refine .inl (ho i e (g e) he ?_ ?_)
      · simp [he]
      · rw [hg]
        exact fun heq => ht heq.symm
  · intro hc k e e' he he' hne
    by_cases hk : i = k
    · subst hk
      obtain rfl : g e = e' := by simpa [he] using he'
      obtain ha | hb := hc e he
      · exact ha
      · rw [hg] at hne
        exact absurd hb.symm hne
    · obtain rfl : e = e' := by simpa [he, hk] using he'
      exact absurd rfl hne

theorem changesOnly_of_eq (h : (w.next C d).entries = w.entries) : w.ChangesOnly C d author := by
  intro k e e' he he' hne
  rw [h] at he'
  cases he.symm.trans he'
  exact absurd rfl hne

end Authored

/-- **Whose messages are edited and deleted.**  From every log whose entries have authors, after
every run, an edit or a deletion of a remote peer changes the text of that peer's entries only,
exactly when the message is dropped, or the first entry with the hash that it names is the peer's or
has the new text already. -/
theorem own_entries_iff (C : ChatCodec) (w₀ : Authored) (hw₀ : w₀.Aligned) (run : List Delivery)
    (d : Delivery) (p : PublicKey) (message : Message) (sentAt : UInt64) (backfilled : Bool)
    (hash : MessageHash) (text : String) (hevent : d.event = .message p message sentAt backfilled)
    (hp : p ≠ w₀.chat.app.localPublic) (hm : message.rewrites = some (hash, text)) :
    let w := (authored C).exec w₀ run
    w.Aligned ∧
    (w.ChangesOnly C d (.peer p) ↔
      (w.chat.Admits C d ⟨p, message, sentAt⟩ → ∀ e, w.entries[w.firstIdx hash]? = some e →
        w.authors[w.firstIdx hash]? = some (.peer p) ∨ e.body = text)) := by
  intro w
  obtain ⟨ha, hl⟩ := Authored.aligned_exec (C := C) hw₀ run
  refine ⟨ha, ?_⟩
  have hh : (w.next C d).entries =
      (w.chat.handleMessage C d ⟨p, message, sentAt⟩).chat.app.entries := by
    simp [Authored.next, Authored.entries, Chat.handle, hevent]
  by_cases h : w.chat.Admits C d ⟨p, message, sentAt⟩
  · have hr : p ≠ w.chat.app.localPublic := by
      rw [hl]
      exact hp
    obtain ⟨g, hg, hen⟩ := entries_of_admits (m := ⟨p, message, sentAt⟩) hm hr h
    rw [Authored.changesOnly_iff_of_modify hg (hh.trans hen)]
    exact ⟨fun ho _ => ho, fun ho => ho h⟩
  · exact iff_of_true (Authored.changesOnly_of_eq (hh.trans (entries_of_not_admits hm h)))
      fun ham => absurd ham h

/-- A message outside any room, at its time of sending. -/
def Delivery.plain (sender : PublicKey) (message : Message) : Delivery :=
  ⟨none, .message sender message 5 false, ⟨0, 5000⟩, .default, none⟩

/-- A new chat with one message of the local user. -/
def Authored.withLocal (text : String) : Authored where
  chat := ⟨(AppState.new ∅ (Block.replicate 32 1) none).pushEntry
    { ChatEntry.create ⟨0, 4000⟩ .localUser "me" text with
      messageHash := some (ChatCodec.sample.messageHash (.message text)) }, ∅⟩
  authors := [.localUser]

/-- A peer edits its own message. -/
theorem own_entries_iff_sender :
    ((authored .sample).exec (.withLocal "hi")
      [.plain (Block.replicate 32 2) (.message "hello")]).ChangesOnly .sample
        (.plain (Block.replicate 32 2) (.edit (Block.replicate 32 5) "good morning"))
        (.peer (Block.replicate 32 2)) :=
  (own_entries_iff .sample (.withLocal "hi") rfl [.plain (Block.replicate 32 2) (.message "hello")]
    (.plain (Block.replicate 32 2) (.edit (Block.replicate 32 5) "good morning"))
    (Block.replicate 32 2) _ 5 false _ _ rfl (by decide) rfl).2.2
    fun _ _ _ => .inl (by decide +kernel)

/-- A peer deletes a message of the local user, and a peer that edits its own message changes the
one that another peer sent before with the same text. -/
theorem others_entries_changed :
    let changes (w : Authored) (d : Delivery) (k : ℕ) (body : String) : Prop :=
      w.entries[k]?.map ChatEntry.body = some "hello" ∧
        (w.next .sample d).entries[k]?.map ChatEntry.body = some body
    let w := Authored.withLocal "hello"
    let w' := (authored .sample).exec (.withLocal "hi")
      [.plain (Block.replicate 32 2) (.message "hello"),
        .plain (Block.replicate 32 3) (.message "hello")]
    (changes w (.plain (Block.replicate 32 2) (.delete (Block.replicate 32 5))) 0
        "[message deleted]" ∧ w.authors[0]? = some .localUser) ∧
      (changes w' (.plain (Block.replicate 32 3) (.edit (Block.replicate 32 5) "bye")) 1 "bye" ∧
        w'.authors = [.localUser, .peer (Block.replicate 32 2), .peer (Block.replicate 32 3)]) := by
  decide +kernel

end Boru.ChatCore
