import Embernet.Lib.Replay
import Embernet.Model.Tui
/-!
# Selection — what the terminal client has selected

The selection is an index into a list that three handlers replace. The
local refresh finds the selected channel again by its name and brings the
index into the list where it is gone. The key `r` only does the second,
and the automatic synchronization only the first: so the key can move the
selection to another channel, and an event can leave it beyond the list.
Where neither happens, the selection is valid and stays.
-/

set_option autoImplicit false

namespace Embernet

namespace Tui

section Selection

variable {σ α : Type} {app app' : App} {s : App × σ}

/-! ## What a selection is -/

/-- The selection is in the list, or there is none to select from. -/
def App.Valid (app : App) : Prop :=
  app.selected < app.channels.length ∨ app.channels = [] ∧ app.selected = 0

/-- The selected channel is selected after, where it is listed. -/
def Stays (app app' : App) : Prop :=
  ∀ channel, app.channel = some channel → channel ∈ app'.channels → app'.channel = some channel

/-- The same selection from the same list. -/
def Still (app : App) (s : App × σ) : Prop :=
  s.1.channels = app.channels ∧ s.1.selected = app.selected

instance (app : App) : Decidable app.Valid := inferInstanceAs (Decidable (_ ∨ _))

theorem Still.valid_iff (h : Still app s) : s.1.Valid ↔ app.Valid := by
  rw [App.Valid, h.1, h.2, App.Valid]

theorem Still.channel_eq (h : Still app s) : s.1.channel = app.channel := by
  rw [App.channel, h.1, h.2, App.channel]

theorem Still.stays_iff {before : App} (h : Still app s) : Stays before s.1 ↔ Stays before app := by
  rw [Stays, h.1, h.channel_eq, Stays]

theorem stays_refl (app : App) : Stays app app := fun _ h _ => h

/-! ## Handlers that keep it -/

theorem keeps_theApp : Op.Keeps (Still app) (theApp : AppM σ App) := fun _ h => h

theorem keeps_call (x : Op σ Error α) : Op.Keeps (Still app) (call x) := fun _ h => h

theorem keeps_update {f : App → App}
    (hf : ∀ a, (f a).channels = a.channels ∧ (f a).selected = a.selected) :
    Op.Keeps (Still app) (update f : AppM σ Unit) := fun s h =>
  ⟨(hf s.1).1.trans h.1, (hf s.1).2.trans h.2⟩

theorem keeps_attempt {x : AppM σ α} (hx : Op.Keeps (Still app) x) :
    Op.Keeps (Still app) (attempt x) := fun s h => hx s h

theorem keeps_handleInput (code : KeyCode) :
    Op.Keeps (Still app) (handleInput code : AppM σ Action) := by
  refine keeps_theApp.bind fun a => ?_
  split
  · exact (keeps_update (by simp)).bind fun _ => .pure _
  · exact (keeps_update (by simp)).bind fun _ => .pure _
  · exact (keeps_update (by simp)).bind fun _ => .pure _
  · exact (keeps_update (by simp)).bind fun _ => .pure _
  · exact .pure _

variable [Services σ]

theorem keeps_localStateFingerprint :
    Op.Keeps (Still app) (localStateFingerprint : AppM σ LocalStateFingerprint) := by
  refine keeps_theApp.bind fun a => (keeps_call _).bind fun channels => .bind ?_ fun _ => .pure _
  refine keeps_theApp.bind fun a => ?_
  split
  · exact .mapM fun _ => keeps_call _
  · exact .pure _

/-- **A refresh reads; it selects nothing.** -/
theorem keeps_refresh : Op.Keeps (Still app) (refresh : AppM σ Unit) := by
  refine keeps_theApp.bind fun a => ?_
  split
  · refine (keeps_update (by simp)).bind fun _ => ?_
    refine keeps_localStateFingerprint.bind fun _ => keeps_update (by simp)
  · refine (Op.Keeps.except _).bind fun chan => (keeps_call _).bind fun _ => ?_
    refine (keeps_update (by simp)).bind fun _ => (keeps_call _).bind fun _ => ?_
    refine (keeps_update (by simp)).bind fun _ => (keeps_call _).bind fun _ => ?_
    refine (keeps_update (by simp)).bind fun _ => (keeps_call _).bind fun _ => ?_
    refine (keeps_update (by simp)).bind fun _ => ?_
    refine keeps_localStateFingerprint.bind fun _ => keeps_update (by simp)

theorem keeps_applyAction (action : Action) :
    Op.Keeps (Still app) (applyAction action : AppM σ String) := by
  refine keeps_theApp.bind fun a => .bind .orBail fun channel => (Op.Keeps.except _).bind fun chan => ?_
  cases action with
  | none => exact .pure _
  | post body =>
    refine (keeps_update (by simp)).bind fun _ => (keeps_call _).bind fun _ => ?_
    exact (keeps_call _).bind fun _ => (keeps_call _).bind fun _ => .pure _
  | sync peer =>
    refine (keeps_call _).bind fun _ => (keeps_call _).bind fun _ => ?_
    refine (keeps_update (by simp)).bind fun _ => (keeps_call _).bind fun _ => ?_
    exact (keeps_update (by simp)).bind fun _ => .pure _

theorem keeps_apply (action : Action) : Op.Keeps (Still app) (apply action : AppM σ Unit) := by
  refine .ite (.pure _) ((keeps_attempt (keeps_applyAction action)).bind fun result => ?_)
  split
  · refine (keeps_update (by simp)).bind fun _ =>
      (keeps_attempt keeps_refresh).bind fun result => ?_
    split
    · exact .pure _
    · exact keeps_update (by simp)
  · exact keeps_update (by simp)

theorem keeps_actOn (action : Action) : Op.Keeps (Still app) (actOn action : AppM σ Unit) := by
  cases action with
  | none => exact keeps_apply .none
  | post body => exact keeps_apply (.post body)
  | sync peer =>
    refine keeps_theApp.bind fun a => .bind .orBail fun _ => (keeps_call _).bind fun _ => ?_
    exact (keeps_call _).bind fun _ => keeps_update (by simp)

/-! ## Another list -/

/-- The place of the selected channel in a list, or another where it has
none. -/
def follow (app : App) (channels : List String) (otherwise : ℕ) : ℕ :=
  (app.channel.bind fun selected => channels.findIdx? (· == selected)).getD otherwise

/-- The application with another list and a place in it. -/
def App.over (app : App) (channels : List String) (selected : ℕ) : App :=
  { app with channels, selected }

/-- A channel that is listed is found. -/
theorem follow_of_mem {channels : List String} {channel : String} (otherwise : ℕ)
    (hchannel : app.channel = some channel) (hmem : channel ∈ channels) :
    channels[follow app channels otherwise]? = some channel := by
  obtain ⟨i, hi⟩ : ∃ i, channels.findIdx? (· == channel) = some i := by
    rw [← Option.isSome_iff_exists, List.findIdx?_isSome]
    exact List.any_eq_true.2 ⟨channel, hmem, beq_self_eq_true _⟩
  obtain ⟨hlt, heq, -⟩ := List.findIdx?_eq_some_iff_getElem.1 hi
  rw [follow, hchannel, Option.bind_some, hi, Option.getD_some, List.getElem?_eq_getElem hlt,
    beq_iff_eq.1 heq]

/-- A selected channel that is still listed stays selected. -/
theorem stays_over_follow (channels : List String) (otherwise : ℕ) :
    Stays app (app.over channels (follow app channels otherwise)) :=
  fun _ hchannel hmem => follow_of_mem otherwise hchannel hmem

/-- One that is not is not. -/
theorem follow_of_not_mem {channels : List String} (otherwise : ℕ)
    (h : ¬ ∃ channel ∈ channels, app.channel = some channel) :
    follow app channels otherwise = otherwise := by
  cases hchannel : app.channel with
  | none => rw [follow, hchannel, Option.bind_none, Option.getD_none]
  | some channel =>
    have hnone : channels.findIdx? (· == channel) = none := by
      rw [List.findIdx?_eq_none_iff]
      intro c hc
      rw [beq_eq_false_iff_ne]
      rintro rfl
      exact h ⟨c, hc, hchannel⟩
    rw [follow, hchannel, Option.bind_some, hnone, Option.getD_none]

theorem valid_over {channels : List String} {selected : ℕ} :
    (app.over channels selected).Valid ↔
      selected < channels.length ∨ channels = [] ∧ selected = 0 := Iff.rfl

/-- An index that was brought into the list is valid. -/
theorem valid_over_clamp (selected : ℕ) (channels : List String) :
    (app.over channels (clamp selected channels.length)).Valid := by
  rw [valid_over, clamp, ← List.length_eq_zero_iff]
  omega

/-- **Found or brought in**, a selection is valid. -/
theorem valid_over_follow {channels : List String} {otherwise : ℕ} :
    (app.over channels (follow app channels otherwise)).Valid ↔
      (∃ channel ∈ channels, app.channel = some channel) ∨
        otherwise < channels.length ∨ channels = [] ∧ otherwise = 0 := by
  by_cases hmem : ∃ channel ∈ channels, app.channel = some channel
  · refine iff_of_true (.inl ?_) (.inl hmem)
    obtain ⟨channel, hmem, hchannel⟩ := hmem
    exact (List.getElem?_eq_some_iff.1 (follow_of_mem otherwise hchannel hmem)).1
  · rw [follow_of_not_mem otherwise hmem, valid_over, or_iff_right hmem]

/-! ## The handlers -/

section

variable {β : Type} {P : App × σ → Prop}

omit [Services σ] in
theorem leaves_theApp {f : App → AppM σ α} (h : Op.Leaves (f s.1) s P) :
    Op.Leaves (Tui.theApp >>= f) s P := h

omit [Services σ] in
theorem leaves_update {g : App → App} {k : Unit → AppM σ α} (h : Op.Leaves (k ()) (g s.1, s.2) P) :
    Op.Leaves (Tui.update g >>= k) s P := h

omit [Services σ] in
theorem leaves_call {x : Op σ Error β} {f : β → AppM σ α}
    (herr : ∀ e t, x.exec s.2 = (.error e, t) → P (s.1, t))
    (hf : ∀ b t, x.exec s.2 = (.ok b, t) → Op.Leaves (f b) (s.1, t) P) :
    Op.Leaves (Tui.call x >>= f) s P := by
  rw [Op.Leaves, Op.exec_bind]
  rcases hexec : x.exec s.2 with ⟨e | b, t⟩
  · have hcall : (Tui.call x).exec s = (.error e, s.1, t) := by
      change ((x.exec s.2).1, s.1, (x.exec s.2).2) = _
      rw [hexec]
    rw [hcall]
    exact herr e t hexec
  · have hcall : (Tui.call x).exec s = (.ok b, s.1, t) := by
      change ((x.exec s.2).1, s.1, (x.exec s.2).2) = _
      rw [hexec]
    rw [hcall]
    exact hf b t hexec

omit [Services σ] in
theorem leaves_attempt {x : AppM σ β} (h : Op.Leaves x s P) : Op.Leaves (Tui.attempt x) s P := h

omit [Services σ] in
theorem leaves_attempt_call {x : Op σ Error β} {f : Except Error β → AppM σ α}
    (h : ∀ r t, x.exec s.2 = (r, t) → Op.Leaves (f r) (s.1, t) P) :
    Op.Leaves (Tui.attempt (Tui.call x) >>= f) s P := h _ _ rfl

end

omit [Services σ] in
theorem still_refl (s : App × σ) : Still s.1 s := ⟨rfl, rfl⟩

omit [Services σ] in
/-- What is followed depends on the selection only. -/
theorem Still.over_follow (h : Still app s) (channels : List String) (otherwise : ℕ) :
    Still (app.over channels (follow app channels otherwise))
      (s.1.over channels (follow s.1 channels otherwise), s.2) := by
  refine ⟨rfl, ?_⟩
  change follow s.1 channels otherwise = follow app channels otherwise
  rw [follow, h.channel_eq, follow]

/-- **The local refresh** changes nothing of the list, or follows the
selected channel in another. -/
theorem leaves_refreshIfLocalStateChanged (s : App × σ) :
    Op.Leaves refreshIfLocalStateChanged s fun s' => Still s.1 s' ∨ ∃ channels,
      Still (s.1.over channels (follow s.1 channels (clamp s.1.selected channels.length))) s' := by
  refine .bind keeps_localStateFingerprint (still_refl s) (fun _ h => .inl h) ?_
  intro fingerprint t ht
  refine leaves_theApp ?_
  split
  · exact .of_keeps (.pure _) ht fun _ h => .inl h
  · refine leaves_update (.of_keeps (keeps_refresh.bind fun _ => (keeps_update (by simp)).bind fun _ =>
      .pure _) ?_ fun _ h => .inr ⟨fingerprint.channels, h⟩)
    rw [← ht.2]
    exact ht.over_follow fingerprint.channels _

/-- **The key `r`** changes nothing of the list, or brings the index into
another. -/
theorem leaves_reload (s : App × σ) :
    Op.Leaves reload s fun s' =>
      match s.1.listed.exec s.2 with
      | (.error _, _) => Still s.1 s'
      | (.ok channels, _) => Still (s.1.over channels (clamp s.1.selected channels.length)) s' := by
  refine leaves_theApp (leaves_call ?_ ?_)
  · intro e t hlisted
    rw [hlisted]
    exact still_refl s
  · intro channels t hlisted
    rw [hlisted]
    exact leaves_update (.of_keeps (keeps_refresh.bind fun _ => keeps_update (by simp)) (still_refl _)
      fun _ h => h)

/-- A list that is another, or that messages were received for, is the
application's after. -/
theorem leaves_adopt (channels : List String) (summary : PeerSyncSummary) (s : App × σ) :
    Op.Leaves (adopt channels summary) s fun s' =>
      if channels ≠ s.1.channels ∨ 0 < summary.received then
        Still (s.1.over channels (follow s.1 channels s.1.selected)) s'
      else Still s.1 s' := by
  refine leaves_theApp ?_
  split
  · refine leaves_update (.bind (keeps_attempt keeps_refresh) (still_refl _) (fun _ h => h) ?_)
    intro result u hu
    split
    · exact .of_keeps (keeps_update (by simp)) hu fun _ h => h
    · exact .of_keeps (keeps_update (by simp)) hu fun _ h => h
  · exact still_refl s

/-- **An event of the synchronization** changes nothing of the list, or
follows the selected channel in another and leaves the index where it has
none. -/
theorem leaves_applyAutoSync (peer : String) (summary : PeerSyncSummary) (s : App × σ) :
    Op.Leaves (applyAutoSync (.complete peer summary)) s fun s' =>
      match s.1.listed.exec s.2 with
      | (.error _, _) => Still s.1 s'
      | (.ok channels, _) =>
        if channels ≠ s.1.channels ∨ 0 < summary.received then
          Still (s.1.over channels (follow s.1 channels s.1.selected)) s'
        else Still s.1 s' := by
  refine leaves_update (leaves_theApp (leaves_attempt_call ?_))
  intro result t hlisted
  have hlisted : s.1.listed.exec s.2 = (result, t) := hlisted
  rw [hlisted]
  cases result with
  | error e => exact .of_keeps (keeps_update (by simp)) (still_refl s) fun _ h => h
  | ok channels => exact leaves_adopt channels summary _

/-- A place up in the list. -/
theorem leaves_selectUp (h : s.1.Valid) : Op.Leaves selectUp s fun s' => s'.1.Valid := by
  refine leaves_theApp ?_
  split
  · refine leaves_update (.of_keeps keeps_refresh (still_refl _) fun _ hstill => hstill.valid_iff.2 ?_)
    refine h.imp (fun hlt => ?_) fun hempty => by omega
    exact Nat.lt_of_le_of_lt (Nat.sub_le _ _) hlt
  · exact h

/-- A place down. -/
theorem leaves_selectDown (h : s.1.Valid) : Op.Leaves selectDown s fun s' => s'.1.Valid := by
  refine leaves_theApp ?_
  split
  · rename_i hlt
    exact leaves_update (.of_keeps keeps_refresh (still_refl _) fun _ hstill => hstill.valid_iff.2 (.inl hlt))
  · exact h

omit [Services σ] in
/-- The keys that select nothing. -/
theorem leaves_of_still {x : AppM σ α} (hx : Op.Keeps (Still s.1) x) (h : s.1.Valid) :
    Op.Leaves x s fun s' => s'.1.Valid :=
  .of_keeps hx (still_refl s) fun _ hstill => hstill.valid_iff.2 h

/-- **The other keys** move the selection inside the list, if at all. -/
theorem leaves_handleNormal {key : KeyEvent} (hkey : key.code ≠ .char 'r') (h : s.1.Valid) :
    Op.Leaves (handleNormal key) s fun s' => s'.1.Valid := by
  refine leaves_theApp ?_
  split
  · exact leaves_of_still (keeps_update (by simp)) h
  · exact leaves_selectUp h
  · exact leaves_selectUp h
  · exact leaves_selectDown h
  · exact leaves_selectDown h
  · exact leaves_of_still (keeps_update (by simp)) h
  · exact leaves_of_still (keeps_update (by simp)) h
  · exact leaves_of_still (keeps_update (by simp)) h
  · exact leaves_of_still (keeps_update (by simp)) h
  · exact leaves_of_still ((keeps_update (by simp)).bind fun _ => keeps_refresh.bind fun _ =>
      keeps_update (by simp)) h
  · exact leaves_of_still (.ite (keeps_update (by simp)) (.pure _)) h
  · exact leaves_of_still (.ite (keeps_update (by simp)) (.pure _)) h
  · exact absurd ‹key.code = .char 'r'› hkey
  · exact leaves_of_still (.ite (keeps_update (by simp)) (.pure _)) h
  · exact h

theorem keeps_valid_actOn (action : Action) :
    Op.Keeps (fun s => s.1.Valid) (actOn action : AppM σ Unit) := fun s h =>
  (keeps_actOn action s (still_refl s)).valid_iff.2 h

/-- A key that is not the key `r`. -/
theorem leaves_pressKey {key : KeyEvent} (hkey : ¬ (s.1.mode = .normal ∧ key.code = .char 'r'))
    (h : s.1.Valid) : Op.Leaves (pressKey key) s fun s' => s'.1.Valid := by
  refine .then_keeps ?_ keeps_valid_actOn
  refine leaves_theApp ?_
  split
  · rename_i hmode
    exact .then_keeps (leaves_handleNormal (fun hcode => hkey ⟨hmode, hcode⟩) h) fun _ => .pure _
  · exact leaves_of_still (keeps_handleInput _) h

/-- The key `r` reloads. -/
theorem leaves_pressKey_reload {key : KeyEvent} (hmode : s.1.mode = .normal)
    (hkey : key.code = .char 'r') :
    Op.Leaves (pressKey key) s fun s' =>
      match s.1.listed.exec s.2 with
      | (.error _, _) => Still s.1 s'
      | (.ok channels, _) => Still (s.1.over channels (clamp s.1.selected channels.length)) s' := by
  refine .then_keeps ?_ fun action => ?_
  · refine leaves_theApp ?_
    rw [if_pos hmode]
    refine .then_keeps ?_ fun _ => .pure _
    refine leaves_theApp ?_
    rw [hkey]
    exact leaves_reload s
  · rcases s.1.listed.exec s.2 with ⟨e | channels, t⟩
    · exact keeps_actOn action
    · exact keeps_actOn action

/-! ## One event, and any number -/

/-- The events that read the list again. -/
def Refreshes (app : App) : TuiEvent σ → Prop
  | .refreshed | .synced _ => True
  | .pressed key => app.mode = .normal ∧ key.code = .char 'r'
  | .drawn .. | .interrupted | .others _ => False

/-- The selection is valid after, and where the list was read again the
selected channel stays. -/
def Kept (s : App × σ) (event : TuiEvent σ) (s' : App × σ) : Prop :=
  s'.1.Valid ∧ (Refreshes s.1 event → Stays s.1 s'.1)

/-- The key `r` finds the selected channel, where it is still listed, at
the index it had or at the end of a shorter list; and an event of the
synchronization that brings a list finds the selected channel in it, or a
channel at its index, or a first and empty list. -/
def Steady (s : App × σ) : TuiEvent σ → Prop
  | .pressed key => s.1.mode = .normal → key.code = .char 'r' →
    ∀ channels t, s.1.listed.exec s.2 = (.ok channels, t) → ∀ channel,
      s.1.channel = some channel → channel ∈ channels →
        channels[clamp s.1.selected channels.length]? = some channel
  | .synced (.complete _ summary) =>
    ∀ channels t, s.1.listed.exec s.2 = (.ok channels, t) →
      channels ≠ s.1.channels ∨ 0 < summary.received →
        (∃ channel ∈ channels, s.1.channel = some channel) ∨
          s.1.selected < channels.length ∨ channels = [] ∧ s.1.selected = 0
  | _ => True

omit [Services σ] in
theorem Still.kept {event : TuiEvent σ} {s' : App × σ} (h : Still s.1 s') (hvalid : s.1.Valid) :
    Kept s event s' :=
  ⟨h.valid_iff.2 hvalid, fun _ => h.stays_iff.2 (stays_refl _)⟩

/-- The key `r`. -/
theorem kept_reload_iff {key : KeyEvent} (hvalid : s.1.Valid) (hmode : s.1.mode = .normal)
    (hkey : key.code = .char 'r') :
    Kept s (.pressed key) (TuiEvent.exec (.pressed key) s) ↔ Steady s (.pressed key) := by
  have hleft : Op.Leaves (pressKey key) s _ := leaves_pressKey_reload hmode hkey
  rcases hlisted : s.1.listed.exec s.2 with ⟨e | channels, t⟩
  · rw [hlisted] at hleft
    refine iff_of_true (Still.kept hleft hvalid) fun _ _ channels t h => ?_
    cases hlisted.symm.trans h
  · rw [hlisted] at hleft
    have hstill : Still _ (TuiEvent.exec (.pressed key) s) := hleft
    rw [Kept, hstill.valid_iff, hstill.stays_iff, and_iff_right (valid_over_clamp _ _)]
    constructor
    · intro h _ _ channels' t' hlisted'
      cases hlisted.symm.trans hlisted'
      exact h ⟨hmode, hkey⟩
    · exact fun h _ => h hmode hkey channels t hlisted

/-- The local refresh. -/
theorem kept_refreshed (hvalid : s.1.Valid) :
    Kept s .refreshed (TuiEvent.exec .refreshed s) := by
  have hleft : Still s.1 (refreshLocal.exec s).2 ∨ ∃ channels,
      Still (s.1.over channels (follow s.1 channels (clamp s.1.selected channels.length)))
        (refreshLocal.exec s).2 := by
    refine Op.Leaves.then_keeps (leaves_attempt (leaves_refreshIfLocalStateChanged s)) fun result => ?_
    split
    · exact .pure _
    · intro u hu
      exact hu.imp (keeps_update (by simp) u ·) fun ⟨channels, h⟩ =>
        ⟨channels, keeps_update (by simp) u h⟩
  rcases hleft with hstill | ⟨channels, hstill⟩
  · exact Still.kept hstill hvalid
  · have hclamp : (s.1.over channels (clamp s.1.selected channels.length)).Valid :=
      valid_over_clamp _ _
    exact ⟨hstill.valid_iff.2 (valid_over_follow.2 (.inr hclamp)),
      fun _ => hstill.stays_iff.2 (stays_over_follow _ _)⟩

/-- An event of the synchronization. -/
theorem kept_complete_iff {peer : String} {summary : PeerSyncSummary} (hvalid : s.1.Valid) :
    Kept s (.synced (.complete peer summary)) (TuiEvent.exec (.synced (.complete peer summary)) s) ↔
      Steady s (.synced (.complete peer summary)) := by
  have hleft : Op.Leaves (applyAutoSync (.complete peer summary)) s _ :=
    leaves_applyAutoSync peer summary s
  rcases hlisted : s.1.listed.exec s.2 with ⟨e | channels, t⟩
  · rw [hlisted] at hleft
    refine iff_of_true (Still.kept hleft hvalid) fun channels t h => ?_
    cases hlisted.symm.trans h
  · rw [hlisted] at hleft
    by_cases hchanged : channels ≠ s.1.channels ∨ 0 < summary.received
    · simp only [if_pos hchanged] at hleft
      have hstill : Still _ (TuiEvent.exec (.synced (.complete peer summary)) s) := hleft
      rw [Kept, hstill.valid_iff, hstill.stays_iff, valid_over_follow,
        and_iff_left fun _ => stays_over_follow channels s.1.selected]
      constructor
      · intro h channels' t' hlisted' _
        cases hlisted.symm.trans hlisted'
        exact h
      · exact fun h => h channels t hlisted hchanged
    · simp only [if_neg hchanged] at hleft
      refine iff_of_true (Still.kept hleft hvalid) fun channels' t' hlisted' hchanged' => ?_
      cases hlisted.symm.trans hlisted'
      exact absurd hchanged' hchanged

/-- **One event**: the selection is kept exactly where the event is
steady. -/
theorem kept_iff_steady (hvalid : s.1.Valid) (event : TuiEvent σ) :
    Kept s event (event.exec s) ↔ Steady s event := by
  cases event with
  | pressed key =>
    by_cases hkey : s.1.mode = .normal ∧ key.code = .char 'r'
    · exact kept_reload_iff hvalid hkey.1 hkey.2
    · exact iff_of_true ⟨leaves_pressKey hkey hvalid, fun h => absurd h hkey⟩
        fun hmode hcode => absurd ⟨hmode, hcode⟩ hkey
  | refreshed => exact iff_of_true (kept_refreshed hvalid) trivial
  | synced event =>
    cases event with
    | failed peer error =>
      exact iff_of_true (Still.kept (keeps_update (by simp) s (still_refl s)) hvalid) trivial
    | complete peer summary => exact kept_complete_iff hvalid
  | drawn lines height =>
    exact iff_of_true (Still.kept (keeps_update (by simp) s (still_refl s)) hvalid) trivial
  | interrupted => exact iff_of_true (Still.kept ⟨rfl, rfl⟩ hvalid) trivial
  | others state => exact iff_of_true (Still.kept ⟨rfl, rfl⟩ hvalid) trivial

/-- What was loaded has the first channel selected. -/
theorem valid_of_load {t t' : σ} (hload : (App.load : Op σ Error App).exec t = (.ok app, t')) :
    app.Valid := by
  obtain ⟨identity, t₁, -, hload⟩ := Op.exec_bind_ok.1 hload
  obtain ⟨peers, t₂, -, hload⟩ := Op.exec_bind_ok.1 hload
  obtain ⟨channels, t₃, -, hload⟩ := Op.exec_bind_ok.1 hload
  have hfirst : (App.initial identity peers channels).Valid :=
    channels.length.eq_zero_or_pos.symm.imp_right fun h => ⟨List.length_eq_zero_iff.1 h, rfl⟩
  have hstill := keeps_refresh (App.initial identity peers channels, t₃) (still_refl _)
  rw [Op.exec, App.refreshed] at hload
  rcases hrefresh : refresh.exec (App.initial identity peers channels, t₃) with ⟨_ | _, app₁, t₄⟩
  · rw [hrefresh] at hload
    cases hload
  · rw [hrefresh] at hload hstill
    cases hload
    exact hstill.valid_iff.2 hfirst

/-- **The selection is valid, and stays.** In every run of the terminal
client whose events were steady the selection is valid, and it is kept by
the next event exactly if that is steady too. -/
theorem selection_kept_iff {t t' : σ} {events : List (TuiEvent σ)}
    (hload : (App.load : Op σ Error App).exec t = (.ok app, t'))
    (hrun : Run (Under Steady TuiStep) (app, t') events s) :
    s.1.Valid ∧ ∀ event s', TuiStep s event s' → (Kept s event s' ↔ Steady s event) := by
  have hvalid : s.1.Valid := by
    refine hrun.invariant (I := fun s => s.1.Valid) ?_ (valid_of_load hload)
    rintro s event s' hvalid ⟨hsteady, rfl⟩
    exact ((kept_iff_steady hvalid event).2 hsteady).1
  refine ⟨hvalid, ?_⟩
  rintro event s' rfl
  exact kept_iff_steady hvalid event

end Selection

/-! ### A channel that goes, and one that comes -/

section Lost

/-- Channels with nothing in them, that others add and remove. -/
@[reducible] def listing : Services (List String) where
  loadIdentity := pure { keyAlias := none, publicKey := "", secretKey := "" }
  listReadableChannels _ := get
  readChannelTailDecrypted _ _ _ := pure []
  readChannelPolicy _ := pure .default
  listPolicyConflicts _ := pure []
  listModerationConflicts _ := pure []
  fileFingerprint _ _ := pure none
  now := pure 0
  signMessageForChannel _ _ _ := bail "read-only"
  appendMessage _ _ := bail "read-only"
  listPeers := pure []
  addPeer url := pure url
  syncFromPeer _ _ := pure 0

attribute [local instance] listing

/-- Where events lead. -/
def lead (s : App × List String) (events : List (TuiEvent (List String))) : App × List String :=
  events.foldl (fun s event => event.exec s) s

theorem run_lead (s : App × List String) (events : List (TuiEvent (List String))) :
    Run TuiStep s events (lead s events) := by
  induction events using List.reverseRecOn with
  | nil => exact .nil s
  | append_singleton events event ih =>
    rw [lead, List.foldl_append]
    exact .snoc ih rfl

/-- The second of two channels is selected, others change the list, and
something happens. -/
def second (channels : List String) (event : TuiEvent (List String)) :
    List (TuiEvent (List String)) :=
  [.pressed ⟨.down, false⟩, .others channels, event]

/-- The second channel goes. -/
def gone : List (TuiEvent (List String)) :=
  second ["alpha"] (.synced (.complete "ws://peer/sync" ⟨1, 0⟩))

/-- One comes before it. -/
def joined : List (TuiEvent (List String)) :=
  second ["alpha", "apex", "beta"] (.pressed ⟨.char 'r', false⟩)

/-- **The index may be left beyond the list, and `r` may select another
channel.** Of two channels the second is selected. Others take it away,
and an event of the synchronization leaves the index where it was; or they
put a channel before it, and the key `r` does. -/
theorem selection_lost : ∃ app t, (App.load : Op (List String) Error App).exec ["alpha", "beta"] =
      (.ok app, t) ∧
    (Run TuiStep (app, t) gone (lead (app, t) gone) ∧ ¬ (lead (app, t) gone).1.Valid) ∧
    Run TuiStep (app, t) joined (lead (app, t) joined) ∧
      (lead (app, t) (joined.take 2)).1.channel = some "beta" ∧
      "beta" ∈ (lead (app, t) joined).1.channels ∧
      (lead (app, t) joined).1.channel ≠ some "beta" := by
  let lost (app : App) (t : List String) : Bool :=
    decide (¬ (lead (app, t) gone).1.Valid ∧
      (lead (app, t) (joined.take 2)).1.channel = some "beta" ∧
      "beta" ∈ (lead (app, t) joined).1.channels ∧
      (lead (app, t) joined).1.channel ≠ some "beta")
  have hlost : (match (App.load : Op (List String) Error App).exec ["alpha", "beta"] with
      | (.ok app, t) => lost app t
      | (.error _, _) => false) = true := by decide +kernel
  rcases hload : (App.load : Op (List String) Error App).exec ["alpha", "beta"] with ⟨_ | app, t⟩
  · rw [hload] at hlost
    cases hlost
  · rw [hload] at hlost
    obtain ⟨hgone, hjoined⟩ := of_decide_eq_true hlost
    exact ⟨app, t, rfl, ⟨run_lead _ _, hgone⟩, run_lead _ _, hjoined⟩

/-- The law for a list that grows behind the selected channel. -/
theorem selection_kept_beta : ∃ app t s, (App.load : Op (List String) Error App).exec
      ["alpha", "beta"] = (.ok app, t) ∧
    Run (Under Steady TuiStep) (app, t) [.pressed ⟨.down, false⟩,
      .others ["alpha", "beta", "gamma"]] s ∧
    s.1.Valid ∧ ∀ event s', TuiStep s event s' → (Kept s event s' ↔ Steady s event) := by
  have hloads : (match (App.load : Op (List String) Error App).exec ["alpha", "beta"] with
      | (.ok _, _) => true
      | (.error _, _) => false) = true := by decide +kernel
  rcases hload : (App.load : Op (List String) Error App).exec ["alpha", "beta"] with ⟨_ | app, t⟩
  · rw [hload] at hloads
    cases hloads
  · have hdown : Steady (app, t) (.pressed ⟨.down, false⟩) := fun _ h => nomatch h
    have hrun : Run (Under Steady TuiStep) (app, t) [.pressed ⟨.down, false⟩,
        .others ["alpha", "beta", "gamma"]] _ :=
      .snoc (.snoc (.nil _) ⟨hdown, rfl⟩) ⟨trivial, rfl⟩
    exact ⟨app, t, _, rfl, hrun, selection_kept_iff hload hrun⟩

end Lost

end Tui

end Embernet
