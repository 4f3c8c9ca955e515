import AutoCache.Protocol.Settled

/-!
# Full synchronisation converges

While `FullSyncSlot` copies the keys of the slot, every key is copied as it is after some part of the
operations since `snapshotLSN`. The replay runs that part over the copy again, and then what the copy does
not have. So the target ends where the source was, if no deadline passes on the way, nothing is missing
from the list of keys and from the log, and no key is renamed before it has been copied.
-/

namespace AutoCache

open Store KeyState List Protocol World

/-! ## One copy -/

/-- While time passes, only the time to live `0` goes on to end at the same deadline. -/
lemma Due.wait {now ttl d : Int} {ns : ℕ} (h : Due now ttl d) (hns : ttl = 0 ∨ ns = 0) : Due (now + ns) ttl d := by
  unfold Due at h ⊢
  omega

/-- A key with one copy, and its deadline. -/
def KeyState.holding (d : Int) : Value → KeyState
  | .string text => ⟨some (stringSlot text d), none⟩
  | .object v => ⟨none, some ⟨v, d⟩⟩

namespace World

variable {w w' : World} {size : RingSize} {key : Bytes} {ttl now d : Int} {value : Value}

lemma restore_eq_holding (hr : ∀ text, value = .string text → Readable key) (hdue : Due now ttl d)
    (hnow : 0 ≤ now) (h : w.restore size key ttl now value = (.ok (), w')) : w' key = .holding d value := by
  cases value with
  | string text =>
    rw [set_eq_on (hr text rfl) hdue hnow h]
    simp [LoggedOp.on, LoggedOp.act, delKey_apply, withStr, holding]
  | object v =>
    have hw : (w.delKey key).setObj key (freshObject now ⟨v, objectDeadline ttl now⟩) = w' :=
      congrArg Prod.snd h
    rw [← hw, hdue.objectDeadline hnow, freshObject_of_ahead (o := ⟨v, d⟩) hdue.ahead]
    simp [setObj_apply, delKey_apply, holding]

/-- What `GetEntry` reports of a calm key says all, and its time to live ends at the deadline. -/
lemma engineEntry_calm (hcalm : (w key).Calm now) (hsingle : (w key).Single) (hnow : 0 ≤ now) :
    (w.engineEntry key now = none ∧ w key = .gone) ∨
      ∃ entry d, w.engineEntry key now = some entry ∧ w key = .holding d entry.value ∧
        Due now (FullSync.copyTTL now entry.expireAt) d := by
  obtain ⟨str, obj, hkey⟩ : ∃ str obj, w key = ⟨str, obj⟩ := ⟨_, _, rfl⟩
  unfold engineEntry
  rw [hkey] at hcalm hsingle ⊢
  cases str with
  | some slot =>
    obtain ⟨e, rfl, hahead⟩ := hcalm.entry rfl
    obtain rfl : obj = none := by simpa [KeyState.Single] using hsingle
    refine .inr ⟨_, e.expireAt.toInt, rfl, ?_, ?_⟩
    · rw [holding, stringSlot_entry]
    unfold Slot.ttl
    unfold Ahead at hahead
    by_cases h0 : e.expireAt = 0
    · simp only [h0, if_true]
      exact .inl ⟨by simp [FullSync.copyTTL], rfl⟩
    have hne : e.expireAt.toInt ≠ 0 := fun h => h0 (Int64.toInt_inj.1 h)
    have hwrap := wrap64_of_fits (x := e.expireAt.toInt - now) (by omega) (by omega)
    have hpos : e.expireAt.toInt - now > 0 := by omega
    have huntil : max 0 (timeUntil (now + (e.expireAt.toInt - now)) now) = e.expireAt.toInt - now := by
      unfold timeUntil
      omega
    simp only [h0, if_false, hwrap, if_neg (not_lt.2 hpos.le), Option.bind_some, if_pos hpos, FullSync.copyTTL, huntil]
    exact .inr ⟨hpos, by omega, by omega⟩
  | none =>
    cases obj with
    | none => exact .inl ⟨rfl, rfl⟩
    | some o =>
      have hahead := hcalm.obj o rfl
      unfold Ahead at hahead
      refine .inr ⟨_, o.expireAt, rfl, rfl, ?_⟩
      by_cases h0 : o.expireAt = 0
      · simp only [h0, lt_irrefl, if_false]
        exact .inl ⟨by simp [FullSync.copyTTL], rfl⟩
      · have huntil : max 0 (timeUntil o.expireAt now) = o.expireAt - now := by
          unfold timeUntil
          omega
        have hpos : o.expireAt > 0 := by omega
        simp only [if_pos hpos, FullSync.copyTTL, huntil]
        exact .inr ⟨by omega, by omega, by omega⟩

end World

lemma KeyState.calm_holding {t d : Int} {value : Value} (ht : 0 ≤ t) (h : Ahead t d) : (KeyState.holding d value).Calm t := by
  cases value with
  | string text => exact calm_gone.withStr ht h
  | object v =>
    refine ⟨nofun, fun o ho => ?_⟩
    cases ho
    exact h

namespace Protocol

open Checkpoint

namespace SyncPhase

def Copying : SyncPhase → Prop
  | replay _ _ | done _ | failed => False
  | _ => True

def pending : SyncPhase → Set Bytes
  | read keys | restore _ _ _ _ keys => {key | key ∈ keys}
  | _ => Set.univ

end SyncPhase

namespace FullSync

variable (y : FullSync)

def InSlot : Set Bytes := {key | y.keySlot key = y.slot}

/-! ## Runs in which nothing gets in the way -/

/-- A client's write while keys are copied. Its keys are in the slot, the log tells what it does, and a
key is renamed when it has been copied under both names. -/
structure Writes (s : SyncState) (write : LoggedWrite) : Prop where
  keys : ∀ key ∈ (write.op s.now).keys, key ∈ y.InSlot ∧ Readable key
  fits : write.Fits y.sourceConfig.size s.now (s.source.live s.now)
  copied : ∀ a b, write = .rename a b → a ∉ s.phase.pending ∧ b ∉ s.phase.pending

/-- No deadline of the source is reached at `t`, and none of the log. -/
def SourceAhead (s : SyncState) (t : Int) : Prop :=
  (∀ key ∈ y.InSlot, (s.source.live s.now key).Calm t) ∧
    ∀ op ∈ s.log.listAfter y.snapshotLSN, op.Ahead t

def TargetAhead (s : SyncState) (t : Int) : Prop :=
  ∀ key ∈ y.InSlot, (s.target.live s.now key).Calm t

/-- No deadline passes while it can make a difference, and a copy that has one is restored in the moment
in which it is read. -/
def Waits (s : SyncState) (ns : ℕ) : Prop :=
  match s.phase with
  | .listTarget | .clear _ | .count | .list _ => y.SourceAhead s (s.now + ns)
  | .read _ => y.SourceAhead s (s.now + ns) ∧ y.TargetAhead s (s.now + ns)
  | .restore _ _ _ ttl _ =>
    y.SourceAhead s (s.now + ns) ∧ y.TargetAhead s (s.now + ns) ∧ (ttl = 0 ∨ ns = 0)
  | .replay ops _ => y.TargetAhead s (s.now + ns) ∧ ∀ op ∈ ops, op.Ahead (s.now + ns)
  | .done _ | .failed => True

/-- The target lists what it has, the source lists what it has, a collection is decoded to what it was,
and the log still has all that was logged. -/
def Advances (s : SyncState) : Prop :=
  match s.phase with
  | .listTarget =>
    ∀ key ∈ y.InSlot, ∀ slot, (s.target.live s.now key).str = some slot → slot.isCounter = false
  | .list count => ∀ keys source,
    Store.keysInSlot y.sourceConfig.engine y.slot count s.now s.source = .ok (keys, source) →
      ∀ key ∈ y.InSlot, s.source.live s.now key ≠ .gone → key ∈ keys
  | .read [] => s.log.CanReplayFrom y.snapshotLSN
  | .read (key :: _) => ∀ o, (s.source.live s.now key).obj = some o →
    ∀ payload, y.marshal o.value = some payload →
      Store.restoredValue y.targetConfig o.value.type payload = .ok (.object o.value)
  | _ => True

def Orderly (s : SyncState) : SyncEvent → Prop
  | .wait ns => y.Waits s ns
  | .write write => s.phase.Copying → y.Writes s write
  | .sync => y.Advances s

/-! ## The source -/

/-- The source is where the operations `ops` since the snapshot have taken it from `w₀`, and the log has
the last of them. -/
structure Recorded (w₀ : World) (now : Int) (source : Store Cache) (log : SlotLog) (pending : Set Bytes)
    (ops : List LoggedOp) (part : Bytes → ℕ) : Prop where
  now_nonneg : 0 ≤ now
  live : ∀ key ∈ y.InSlot, source.live now key = ops.foldl LoggedOp.on w₀ key
  calm : ∀ key ∈ y.InSlot, (source.live now key).Calm now
  last : log.last = y.snapshotLSN + ops.length
  listed : log.listAfter y.snapshotLSN <:+ ops
  ahead : ∀ op ∈ log.listAfter y.snapshotLSN, op.Ahead now
  keys : ∀ op ∈ ops, ∀ key ∈ op.keys, key ∈ y.InSlot ∧ Readable key
  progress : Progress LoggedOp.on LoggedOp.act LoggedOp.Legal LoggedOp.reads y.InSlot w₀ pending ops part

namespace Recorded

variable {y} {w₀ : World} {now t : Int} {source source' : Store Cache} {log : SlotLog}
  {pending : Set Bytes} {ops : List LoggedOp} {part : Bytes → ℕ}

lemma wait (h : y.Recorded w₀ now source log pending ops part) (ht : now ≤ t)
    (hcalm : ∀ key ∈ y.InSlot, (source.live now key).Calm t)
    (hahead : ∀ op ∈ log.listAfter y.snapshotLSN, op.Ahead t) :
    y.Recorded w₀ t source log pending ops part where
  now_nonneg := h.now_nonneg.trans ht
  live key hkey := (live_of_calm ht (hcalm key hkey)).trans (h.live key hkey)
  calm key hkey := by
    rw [live_of_calm ht (hcalm key hkey)]
    exact hcalm key hkey
  last := h.last
  listed := h.listed
  ahead := hahead
  keys := h.keys
  progress := h.progress

lemma copied {pending' : Set Bytes} (h : y.Recorded w₀ now source log pending ops part)
    (hsource : source'.live now = source.live now) (hsub : pending' ⊆ pending) :
    y.Recorded w₀ now source' log pending' ops part :=
  { h with
    live := fun key hkey => hsource ▸ h.live key hkey
    calm := fun key hkey => hsource ▸ h.calm key hkey
    progress := h.progress.mono hsub }

open LoggedOp

lemma write {op : LoggedOp} (h : y.Recorded w₀ now source log pending ops part)
    (hkeys : ∀ key ∈ op.keys, key ∈ y.InSlot ∧ Readable key)
    (hsource : source'.live now = op.on (source.live now)) (hahead : op.Ahead now)
    (hlegal : ∀ key, op.Legal key (source.live now key))
    (hcopied : ∀ a b, op = .rename a b → a ∉ pending ∧ b ∉ pending) :
    ∃ part', y.Recorded w₀ now source' (log.append op) pending (ops ++ [op]) part' ∧
      ∀ key ∉ pending, part' key = part key := by
  have hslot : ∀ key ∈ op.keys, key ∈ y.InSlot := fun key hkey => (hkeys key hkey).1
  have hlist : (log.append op).listAfter y.snapshotLSN <:+ log.listAfter y.snapshotLSN ++ [op] := by
    refine SlotLog.listAfter_append ?_
    have := h.last
    omega
  have hsub : (log.append op).listAfter y.snapshotLSN ⊆ log.listAfter y.snapshotLSN ++ [op] :=
    hlist.subset
  have hprogress := h.progress.log (a := op) (fun key hkey hp j hj => by
      refine ⟨reads_subset hslot hkey hj, ?_⟩
      cases op with
      | rename a b =>
        obtain ⟨ha, hb⟩ := hcopied a b rfl
        rcases hj with rfl | ⟨-, rfl | rfl⟩ <;> assumption
      | _ => exact (Set.mem_singleton_iff.1 hj) ▸ hp)
    (fun key _ hp => on_eq_act fun a b heq => by
      obtain ⟨ha, hb⟩ := hcopied a b heq
      exact ⟨fun hkey => ha (hkey ▸ hp), fun hkey => hb (hkey ▸ hp)⟩)
    (fun key hkey _ => h.live key hkey ▸ hlegal key)
  refine ⟨_, ⟨h.now_nonneg, fun key hkey => ?_, fun key hkey => ?_, ?_, ?_, fun o ho => ?_, ?_,
    hprogress⟩, fun key hp => if_neg hp⟩
  · rw [hsource, foldl_append]
    exact on_congr fun j hj => h.live j (reads_subset hslot hkey hj)
  · rw [hsource]
    exact calm_on (fun j hj => h.calm j (reads_subset hslot hkey hj)) h.now_nonneg hahead
  · change log.last + 1 = _
    rw [h.last, length_append, length_singleton]
    omega
  · obtain ⟨before, hbefore⟩ := h.listed
    exact hlist.trans ⟨before, by rw [← append_assoc, hbefore]⟩
  · rcases mem_append.1 (hsub ho) with ho | ho
    · exact h.ahead o ho
    · rw [mem_singleton.1 ho]
      exact hahead
  · intro o ho
    rcases mem_append.1 ho with ho | ho
    · exact h.keys o ho
    · rw [mem_singleton.1 ho]
      exact hkeys

lemma listAfter_eq (h : y.Recorded w₀ now source log pending ops part)
    (hcan : log.CanReplayFrom y.snapshotLSN) : log.listAfter y.snapshotLSN = ops := by
  refine h.listed.eq_of_length ?_
  rw [SlotLog.length_listAfter hcan, h.last]
  omega

end Recorded

/-! ## The target -/

/-- The slot on the target while it is filled: the keys in `keys` are yet to come, and each other one has
the first operations. -/
structure Copies (w₀ : World) (now : Int) (target : Store Cache) (ops : List LoggedOp) (part : Bytes → ℕ)
    (keys : List Bytes) : Prop where
  nodup : keys.Nodup
  calm : ∀ key ∈ y.InSlot, (target.live now key).Calm now
  gone : ∀ key ∈ y.InSlot, key ∈ keys → target.live now key = .gone
  copied : ∀ key ∈ y.InSlot, key ∉ keys →
    target.live now key = (ops.take (part key)).foldl LoggedOp.on w₀ key

/-- `RestoreEntry` makes the key what it was when it was read. -/
def Restores (now : Int) (key : Bytes) (type : ValueType) (payload : Bytes) (ttl : Int) (k : KeyState) :
    Prop :=
  ∃ value d, Store.restoredValue y.targetConfig type payload = .ok value ∧ k = .holding d value ∧
    Due now ttl d ∧ ∀ text, value = .string text → Readable key

/-- What the target has of the slot, by the phase. -/
def Target (w₀ : World) (now : Int) (target : Store Cache) (ops : List LoggedOp) (part : Bytes → ℕ) :
    SyncPhase → Prop
  | .listTarget => True
  | .clear keys => ∀ key ∈ y.InSlot, target.live now key ≠ .gone → key ∈ keys
  | .count | .list _ => ∀ key ∈ y.InSlot, target.live now key = .gone
  | .read keys => y.Copies w₀ now target ops part keys
  | .restore key type payload ttl keys =>
    y.Copies w₀ now target ops part (key :: keys) ∧
      (key ∈ y.InSlot →
        y.Restores now key type payload ttl ((ops.take (part key)).foldl LoggedOp.on w₀ key))
  | .replay _ _ | .done _ | .failed => False

/-- The rest of the replay takes the target to where the source was. -/
structure Replaying (now : Int) (target : Store Cache) (ops : List LoggedOp) (reached : Store Cache) :
    Prop where
  now_nonneg : 0 ≤ now
  calm : ∀ key ∈ y.InSlot, (target.live now key).Calm now
  ahead : ∀ op ∈ ops, op.Ahead now
  keys : ∀ op ∈ ops, ∀ key ∈ op.keys, key ∈ y.InSlot ∧ Readable key
  reaches : ∀ key ∈ y.InSlot, ops.foldl LoggedOp.on (target.live now) key = reached.live now key

inductive Inv (w₀ : World) (s : SyncState) : Prop where
  | copying {ops : List LoggedOp} {part : Bytes → ℕ}
      (source : y.Recorded w₀ s.now s.source s.log s.phase.pending ops part)
      (target : y.Target w₀ s.now s.target ops part s.phase)
  | replaying {ops : List LoggedOp} {reached : Store Cache} (phase : s.phase = .replay ops reached)
      (target : y.Replaying s.now s.target ops reached)
  | done {reached : Store Cache} (phase : s.phase = .done reached)
      (same : ∀ key ∈ y.InSlot, s.target.live s.now key = reached.live s.now key)
  | failed (phase : s.phase = .failed)

variable {y} {w₀ : World} {now t : Int} {target : Store Cache} {ops : List LoggedOp} {part : Bytes → ℕ}
  {s s' : SyncState}

/-! ### Time passes -/

variable {keys : List Bytes} {key : Bytes} {source : Store Cache} {pending : Set Bytes} {limit : ℕ}

lemma Copies.wait (h : y.Copies w₀ now target ops part keys) (ht : now ≤ t)
    (hcalm : ∀ key ∈ y.InSlot, (target.live now key).Calm t) : y.Copies w₀ t target ops part keys where
  nodup := h.nodup
  calm key hkey := by
    rw [live_of_calm ht (hcalm key hkey)]
    exact hcalm key hkey
  gone key hkey hin := (live_of_calm ht (hcalm key hkey)).trans (h.gone key hkey hin)
  copied key hkey hout := (live_of_calm ht (hcalm key hkey)).trans (h.copied key hkey hout)

lemma Replaying.wait {reached : Store Cache} (h : y.Replaying now target ops reached) (ht : now ≤ t)
    (hcalm : ∀ key ∈ y.InSlot, (target.live now key).Calm t) (hahead : ∀ op ∈ ops, op.Ahead t) :
    y.Replaying t target ops reached := by
  have hslot : ∀ op ∈ ops, ∀ key ∈ op.keys, key ∈ y.InSlot := fun op hop key hkey => (h.keys op hop key hkey).1
  have hnonneg : 0 ≤ t := h.now_nonneg.trans ht
  have hsame : ∀ key ∈ y.InSlot, target.live t key = target.live now key := fun key hkey =>
    live_of_calm ht (hcalm key hkey)
  refine ⟨hnonneg, fun key hkey => (hsame key hkey).symm ▸ hcalm key hkey, hahead, h.keys, fun key hkey => ?_⟩
  rw [LoggedOp.foldl_congr hslot hsame key hkey, h.reaches key hkey]
  -- the deadlines that the source had are among those that are ahead
  refine (live_of_calm ht ?_).symm
  rw [← h.reaches key hkey]
  exact LoggedOp.calm_foldl hslot hnonneg hahead hcalm key hkey

lemma live_gone {s : Store Cache} (ht : now ≤ t) (h : s.live now key = .gone) : s.live t key = .gone := by
  rw [live_later ht]
  exact later_gone h

lemma Inv.wait {ns : ℕ} (h : y.Inv w₀ s) (hw : y.Waits s ns) : y.Inv w₀ { s with now := s.now + ns } := by
  obtain ⟨now, source, target, log, phase⟩ := s
  have ht : now ≤ now + ns := by omega
  cases h with
  | copying hsource htgt =>
    cases phase with
    | listTarget => exact .copying (hsource.wait ht hw.1 hw.2) trivial
    | clear keys =>
      refine .copying (hsource.wait ht hw.1 hw.2) fun key hkey hlive => ?_
      exact htgt key hkey fun hgone => hlive (live_gone ht hgone)
    | count | list _ =>
      exact .copying (hsource.wait ht hw.1 hw.2) fun key hkey => live_gone ht (htgt key hkey)
    | read keys => exact .copying (hsource.wait ht hw.1.1 hw.1.2) (htgt.wait ht hw.2)
    | restore key type payload ttl keys =>
      refine .copying (hsource.wait ht hw.1.1 hw.1.2) ⟨htgt.1.wait ht hw.2.1, fun hkey => ?_⟩
      obtain ⟨value, d, hval, hk, hdue, hr⟩ := htgt.2 hkey
      exact ⟨value, d, hval, hk, hdue.wait hw.2.2, hr⟩
    | replay _ _ | done _ | failed => exact htgt.elim
  | replaying hph htgt =>
    obtain rfl : phase = _ := hph
    exact .replaying rfl (htgt.wait ht hw.1 hw.2)
  | done hph hsame =>
    obtain rfl : phase = _ := hph
    refine .done rfl fun key hkey => ?_
    change target.live (now + ns) key = _
    rw [live_later ht, live_later ht]
    have hkeys : target.live now key = _ := hsame key hkey
    simp only [later, hkeys]
  | failed hph => exact .failed hph

/-! ### The source accepts a write -/

lemma Target.copying {phase : SyncPhase} (h : y.Target w₀ now target ops part phase) : phase.Copying := by
  cases phase with
  | replay _ _ | done _ | failed => exact h.elim
  | listTarget | clear _ | count | list _ | read _ | restore _ _ _ _ _ => trivial

lemma Target.log {phase : SyncPhase} {op : LoggedOp} {part' : Bytes → ℕ}
    (h : y.Target w₀ now target ops part phase) (hle : ∀ key ∈ y.InSlot, part key ≤ ops.length)
    (hpart : ∀ key ∉ phase.pending, part' key = part key) :
    y.Target w₀ now target (ops ++ [op]) part' phase := by
  have htake (key : Bytes) (hkey : key ∈ y.InSlot) (hout : key ∉ phase.pending) :
      (ops ++ [op]).take (part' key) = ops.take (part key) := by
    rw [hpart key hout, take_append_of_le_length (hle key hkey)]
  cases phase with
  | read keys =>
    refine { h with copied := fun key hkey hout => ?_ }
    rw [htake key hkey hout]
    exact h.copied key hkey hout
  | restore key type payload ttl keys =>
    obtain ⟨hcopies, hrestores⟩ := h
    have hkeys : key ∉ keys := (nodup_cons.1 hcopies.nodup).1
    refine ⟨{ hcopies with copied := fun k hk hout => ?_ }, fun hk => ?_⟩
    · rw [htake k hk (not_mem_of_not_mem_cons hout)]
      exact hcopies.copied k hk hout
    · rw [htake key hk hkeys]
      exact hrestores hk
  | listTarget | clear _ | count | list _ | replay _ _ | done _ | failed => exact h

lemma Inv.write {write : LoggedWrite} (h : y.Inv w₀ s) (hw : s.phase.Copying → y.Writes s write)
    (hstep : y.step s (.write write) = .ok s') : y.Inv w₀ s' := by
  obtain ⟨⟨result, source'⟩, hrun, hstep⟩ := Go.bind_eq_ok.1 hstep
  cases h with
  | @copying ops part hsource htgt =>
    obtain ⟨hkeys, hfits, hcopied⟩ := hw htgt.copying
    have hcalm : ∀ key ∈ (write.op s.now).keys, (s.source.live s.now key).Calm s.now :=
      fun key hkey => hsource.calm key (hkeys key hkey).1
    rcases LoggedWrite.live_run hsource.now_nonneg (fun key hkey => (hkeys key hkey).2) hcalm hfits hrun
      with ⟨rfl, hlive, hahead, hlegal⟩ | ⟨err, rfl, hlive⟩
    · cases hstep
      obtain ⟨part', hsource', hpart⟩ := hsource.write hkeys hlive hahead hlegal fun a b hop => by
        cases write <;> cases hop
        exact hcopied a b rfl
      exact .copying hsource' (htgt.log hsource.progress.part_le hpart)
    · cases hstep
      exact .copying (hsource.copied hlive subset_rfl) htgt
  | replaying hph htgt => cases result <;> cases hstep <;> exact .replaying hph htgt
  | done hph hsame => cases result <;> cases hstep <;> exact .done hph hsame
  | failed hph => cases result <;> cases hstep <;> exact .failed hph

/-! ### The synchronisation advances -/

lemma mem_listedKeys {s : Store Cache} (h : s.live now key ≠ .gone)
    (hctr : ∀ slot, (s.live now key).str = some slot → slot.isCounter = false) :
    key ∈ listedKeys s now := by
  simp only [listedKeys, Finset.mem_sort, Finset.mem_union, Finset.mem_image, Finset.mem_filter, Finmap.mem_keys]
  cases hstr : (s.live now key).str with
  | some slot =>
    obtain ⟨hlk, hlive⟩ := lookup_of_live hstr
    cases slot with
    | counter n hn => cases hctr _ hstr
    | entry e =>
      refine .inl ⟨key, ⟨Finmap.mem_of_lookup_eq_some hlk, ?_⟩, storedValue_of_short hlive.1⟩
      simp [hlk, Slot.listed, hlive.2]
  | none =>
    cases hobj : (s.live now key).obj with
    | none => exact absurd (KeyState.ext hstr hobj) h
    | some o =>
      refine .inr ⟨?_, rfl⟩
      have hlk : (s.objects.lookup key).filter (¬ Object.expired · now) = some o := hobj
      exact Finmap.mem_of_lookup_eq_some (Option.filter_eq_some_iff.1 hlk).1

lemma Recorded.take_pending {log : SlotLog}
    (h : y.Recorded w₀ now source log pending ops part) (hkey : key ∈ y.InSlot) (hp : key ∈ pending) :
    (ops.take (part key)).foldl LoggedOp.on w₀ key = source.live now key := by
  rw [h.progress.part_pending key hkey hp, take_length, h.live key hkey]

lemma Recorded.copies {log : SlotLog} (h : y.Recorded w₀ now source log Set.univ ops part) (hnd : keys.Nodup)
    (hgone : ∀ key ∈ y.InSlot, target.live now key = .gone)
    (hlst : ∀ key ∈ y.InSlot, source.live now key ≠ .gone → key ∈ keys) :
    y.Copies w₀ now target ops part keys where
  nodup := hnd
  calm key hkey := by
    rw [hgone key hkey]
    exact calm_gone
  gone key hkey _ := hgone key hkey
  copied key hkey hout := by
    have hsource : source.live now key = .gone := by
      by_contra hlive
      exact hout (hlst key hkey hlive)
    rw [hgone key hkey, h.take_pending hkey trivial, hsource]

lemma Recorded.single {log : SlotLog}
    (h : y.Recorded w₀ now source log pending ops part) (hw₀ : (w₀ key).Single) (hkey : key ∈ y.InSlot)
    (hp : key ∈ pending) : (source.live now key).Single := by
  rw [← h.take_pending hkey hp, h.progress.foldl_take hkey]
  exact LoggedOp.single_foldl hw₀ (h.progress.trace key hkey)

lemma Recorded.replaying {log : SlotLog} (h : y.Recorded w₀ now source log {key | key ∈ ([] : List Bytes)} ops part)
    (hw₀ : ∀ key ∈ y.InSlot, (w₀ key).Single) (hcopies : y.Copies w₀ now target ops part [])
    (hcan : log.CanReplayFrom y.snapshotLSN) :
    y.Replaying now target (log.listAfter y.snapshotLSN) source := by
  have hahead := h.ahead
  rw [h.listAfter_eq hcan] at hahead ⊢
  refine ⟨h.now_nonneg, hcopies.calm, hahead, h.keys, fun key hkey => ?_⟩
  rw [h.live key hkey]
  refine h.progress.foldl_eq (fun _ _ _ _ => LoggedOp.on_congr)
    (fun key hkey _ htrace => LoggedOp.settled (hw₀ key hkey) htrace)
    (fun key hkey => hcopies.copied key hkey not_mem_nil) key hkey

/-- `GetEntry` finds nothing: there is nothing to copy. -/
lemma Copies.skip (h : y.Copies w₀ now target ops part (key :: keys))
    (hgone : key ∈ y.InSlot → (ops.take (part key)).foldl LoggedOp.on w₀ key = .gone) :
    y.Copies w₀ now target ops part keys where
  nodup := (nodup_cons.1 h.nodup).2
  calm := h.calm
  gone k hk hin := h.gone k hk (mem_cons_of_mem key hin)
  copied k hk hout := by
    by_cases hkey : k = key
    · subst hkey
      rw [h.gone k hk mem_cons_self, hgone hk]
    · exact h.copied k hk (not_mem_cons_of_ne_of_not_mem hkey hout)

lemma Copies.restore {type : ValueType} {payload : Bytes} {ttl : Int}
    {target' : Store Cache} (h : y.Copies w₀ now target ops part (key :: keys)) (hnow : 0 ≤ now)
    (hrestores : key ∈ y.InSlot → y.Restores now key type payload ttl ((ops.take (part key)).foldl LoggedOp.on w₀ key))
    (hrun : Store.restoreEntry y.targetConfig.engine key type payload ttl now target =
      .ok (.ok (), target')) : y.Copies w₀ now target' ops part keys := by
  have hacts := restoreEntry_acts.of_run hrun
  have hoth (k : Bytes) (hk : k ≠ key) : target'.live now k = target.live now k := by
    cases hval : restoredValue y.targetConfig type payload with rw [hval] at hacts
    | error text =>
      cases hacts
    | ok value =>
      have hlive : ((target.live now).restore y.targetConfig.size key ttl now value).2 = target'.live now :=
        congrArg Prod.snd hacts
      rw [← hlive, restore_of_ne hk]
  have hcopy (hkey : key ∈ y.InSlot) : ∃ d value, target'.live now key = .holding d value ∧
      (ops.take (part key)).foldl LoggedOp.on w₀ key = .holding d value ∧ Ahead now d := by
    obtain ⟨value, d, hval, hk, hdue, hr⟩ := hrestores hkey
    rw [hval] at hacts
    exact ⟨d, value, restore_eq_holding hr hdue hnow hacts, hk, hdue.ahead⟩
  have hnotin : key ∉ keys := (nodup_cons.1 h.nodup).1
  refine ⟨(nodup_cons.1 h.nodup).2, fun k hk => ?_, fun k hk hin => ?_, fun k hk hout => ?_⟩
  · by_cases hkey : k = key
    · subst hkey
      obtain ⟨d, value, htgt, -, hahead⟩ := hcopy hk
      rw [htgt]
      exact calm_holding hnow hahead
    · rw [hoth k hkey]
      exact h.calm k hk
  · have hkey : k ≠ key := fun heq => hnotin (heq ▸ hin)
    rw [hoth k hkey]
    exact h.gone k hk (mem_cons_of_mem key hin)
  · by_cases hkey : k = key
    · subst hkey
      obtain ⟨d, value, htgt, hfold, -⟩ := hcopy hk
      rw [htgt, hfold]
    · rw [hoth k hkey]
      exact h.copied k hk (not_mem_cons_of_ne_of_not_mem hkey hout)

lemma Recorded.restores {log : SlotLog} {entry : Tiered.EngineEntry} {type : ValueType} {payload : Bytes}
    (h : y.Recorded w₀ now source log pending ops part) (hw₀ : (w₀ key).Single) (hkey : key ∈ y.InSlot)
    (hp : key ∈ pending)
    (hdecode : ∀ o, (source.live now key).obj = some o → ∀ payload, y.marshal o.value = some payload →
      Store.restoredValue y.targetConfig o.value.type payload = .ok (.object o.value))
    (hent : (source.live now).engineEntry key now = some entry)
    (hserialize : y.serialize entry.value = some (type, payload)) :
    y.Restores now key type payload (copyTTL now entry.expireAt) ((ops.take (part key)).foldl LoggedOp.on w₀ key) := by
  rw [h.take_pending hkey hp]
  rcases engineEntry_calm (h.calm key hkey) (h.single hw₀ hkey hp) h.now_nonneg with
    ⟨hnone, -⟩ | ⟨entry', d, hsome, hlive, hdue⟩
  · cases hnone.symm.trans hent
  cases hsome.symm.trans hent
  refine ⟨entry.value, d, ?_, hlive, hdue, fun text htext => ?_⟩
  · cases hval : entry.value with
    | string text =>
      rw [hval] at hserialize
      cases hserialize
      rfl
    | object v =>
      rw [hval] at hserialize hlive
      obtain ⟨payload', hmarshal, heq⟩ := Option.map_eq_some_iff.1 hserialize
      cases heq
      exact hdecode ⟨v, d⟩ (by rw [hlive]; rfl) payload hmarshal
  · rw [htext] at hlive
    have hstr : (source.live now key).str = some (stringSlot text d) := by rw [hlive]; rfl
    exact (lookup_of_live hstr).2.1

lemma Replaying.apply {op : LoggedOp} {reached target' : Store Cache} (h : y.Replaying now target (op :: ops) reached)
    (hrun : op.apply y.targetConfig.engine now target = .ok (.ok (), target')) :
    y.Replaying now target' ops reached := by
  obtain ⟨hop, hkeys⟩ := forall_mem_cons.1 h.keys
  obtain ⟨hahead, hrest⟩ := forall_mem_cons.1 h.ahead
  have hslot : ∀ key ∈ op.keys, key ∈ y.InSlot := fun key hkey => (hop key hkey).1
  have hlive : target'.live now = op.on (target.live now) :=
    LoggedOp.live_apply h.now_nonneg (fun key hkey => (hop key hkey).2)
      (fun key hkey => h.calm key (hop key hkey).1) hahead hrun
  refine ⟨h.now_nonneg, fun key hkey => ?_, hrest, hkeys, fun key hkey => ?_⟩
  · rw [hlive]
    exact LoggedOp.calm_on (fun j hj => h.calm j (LoggedOp.reads_subset hslot hkey hj)) h.now_nonneg hahead
  · rw [hlive]
    exact h.reaches key hkey

section

variable (h : y.Inv w₀ s) (hw₀ : ∀ key ∈ y.InSlot, (w₀ key).Single)
include h hw₀

/-- **Each call keeps the invariant.** -/
lemma Inv.advance (ha : y.Advances s) (hstep : y.advance s = .ok s') : y.Inv w₀ s' := by
  obtain ⟨now, source, target, log, phase⟩ := s
  cases h with
  | @copying ops part hsource htgt =>
    cases phase with
    | listTarget =>
      cases hstep
      refine .copying (hsource.copied rfl subset_rfl) fun key hkey hlive => ?_
      exact mem_filter.2 ⟨mem_listedKeys hlive (ha key hkey), decide_eq_true hkey⟩
    | clear keys =>
      obtain ⟨⟨n, target'⟩, hdel, hstep⟩ := Go.bind_eq_ok.1 hstep
      cases hstep
      refine .copying (hsource.copied rfl subset_rfl) fun key hkey => ?_
      have hlive : (target.live now).del keys = target'.live now :=
        congrArg Prod.snd ((del_acts keys).of_run hdel)
      change target'.live now key = .gone
      rw [← hlive, del_apply]
      split
      · rfl
      · next hout =>
        by_contra hgone
        exact hout (htgt key hkey hgone)
    | count =>
      obtain ⟨⟨keys, source'⟩, hkeys, hstep⟩ := Go.bind_eq_ok.1 hstep
      cases hstep
      exact .copying (hsource.copied (keysInSlot_eq hkeys).2 subset_rfl) htgt
    | list count =>
      obtain ⟨⟨keys, source'⟩, hkeys, hstep⟩ := Go.bind_eq_ok.1 hstep
      cases hstep
      obtain ⟨hnd, hlive⟩ := keysInSlot_eq hkeys
      exact .copying (hsource.copied hlive (Set.subset_univ _)) (hsource.copies hnd htgt (ha keys source' hkeys))
    | read keys =>
      cases keys with
      | nil =>
        cases hstep
        exact .replaying rfl (hsource.replaying hw₀ htgt ha)
      | cons key keys =>
        obtain ⟨⟨entry, source'⟩, hent, hstep⟩ := Go.bind_eq_ok.1 hstep
        obtain ⟨hfnd, hlive⟩ := Prod.mk.inj (engineEntry_acts.of_run hent)
        have hsub : {k | k ∈ keys} ⊆ {k | k ∈ key :: keys} := fun k hk => mem_cons_of_mem key hk
        have hp : key ∈ {k | k ∈ key :: keys} := mem_cons_self
        cases entry with
        | none =>
          cases hstep
          refine .copying (hsource.copied hlive.symm hsub) (htgt.skip fun hkey => ?_)
          rcases engineEntry_calm (hsource.calm key hkey) (hsource.single (hw₀ key hkey) hkey hp)
            hsource.now_nonneg with ⟨-, hgone⟩ | ⟨entry, d, hsome, -⟩
          · rw [hsource.take_pending hkey hp, hgone]
          · cases hsome.symm.trans hfnd
        | some entry =>
          dsimp only at hstep
          cases hserialize : y.serialize entry.value with
          | none =>
            rw [hserialize] at hstep
            cases hstep
            exact .failed rfl
          | some typed =>
            obtain ⟨type, payload⟩ := typed
            rw [hserialize] at hstep
            cases hstep
            exact .copying (hsource.copied hlive.symm hsub) ⟨htgt, fun hkey =>
              hsource.restores (hw₀ key hkey) hkey hp ha hfnd hserialize⟩
    | restore key type payload ttl keys =>
      obtain ⟨⟨result, target'⟩, hrestore, hstep⟩ := Go.bind_eq_ok.1 hstep
      cases result with
      | error err =>
        cases hstep
        exact .failed rfl
      | ok u =>
        cases hstep
        exact .copying (hsource.copied rfl subset_rfl) (htgt.1.restore hsource.now_nonneg htgt.2 hrestore)
    | replay _ _ | done _ | failed => exact htgt.elim
  | @replaying ops reached hph htgt =>
    obtain rfl : phase = _ := hph
    cases ops with
    | nil =>
      cases hstep
      exact .done rfl htgt.reaches
    | cons op ops =>
      obtain ⟨⟨result, target'⟩, happly, hstep⟩ := Go.bind_eq_ok.1 hstep
      cases result with
      | error err =>
        cases hstep
        exact .failed rfl
      | ok u =>
        cases hstep
        exact .replaying rfl (htgt.apply happly)
  | done hph hsame =>
    obtain rfl : phase = _ := hph
    cases hstep
    exact .done rfl hsame
  | failed hph =>
    obtain rfl : phase = _ := hph
    cases hstep
    exact .failed rfl

lemma Inv.step {e : SyncEvent} (ho : y.Orderly s e) (hstep : y.step s e = .ok s') : y.Inv w₀ s' := by
  cases e with
  | wait ns =>
    cases hstep
    exact h.wait ho
  | write write => exact h.write ho hstep
  | sync => exact h.advance hw₀ ho hstep

end

lemma inv_start (hstart : y.Start s) (hcalm : ∀ key ∈ y.InSlot, (s.source.live s.now key).Calm s.now) :
    y.Inv (s.source.live s.now) s := by
  have hcan : s.log.CanReplayFrom y.snapshotLSN := by
    unfold SlotLog.CanReplayFrom
    rw [hstart.snapshot]
    split
    · assumption
    · rw [if_neg (lt_irrefl _), if_pos rfl]
      trivial
  have hnil : s.log.listAfter y.snapshotLSN = [] := by
    refine eq_nil_of_length_eq_zero ?_
    rw [SlotLog.length_listAfter hcan, hstart.snapshot, Nat.sub_self]
  have hsource : y.Recorded (s.source.live s.now) s.now s.source s.log s.phase.pending [] fun _ => 0 := by
    refine ⟨hstart.now_nonneg, fun _ _ => rfl, hcalm, hstart.snapshot, ?_, ?_, nofun, .start⟩
    · rw [hnil]
    · rw [hnil]
      exact nofun
  refine .copying hsource ?_
  rw [hstart.phase]
  trivial

def smallSync : FullSync where
  sourceConfig := Tiered.smallHot
  targetConfig := Tiered.smallHot
  keySlot _ := 0
  slot := 0
  snapshotLSN := 0
  marshal _ := none

/-- Nothing is there, and nothing has been logged; the log holds `limit` operations. -/
def emptySync (limit : ℕ) (h : 0 < limit) : SyncState where
  now := 0
  source := ⟨∅, ∅, ∅⟩
  target := ⟨∅, ∅, ∅⟩
  log := ⟨limit, [], 0, h, rfl, le_rfl, nofun⟩

lemma advance_listTarget {h : 0 < limit} :
    smallSync.step (emptySync limit h) .sync = .ok { emptySync limit h with phase := .clear [] } := by
  have hlst : listedKeys (⟨∅, ∅, ∅⟩ : Store Cache) 0 = [] := by simp [listedKeys]
  simp only [step, advance, emptySync, hlst]
  rfl

lemma advance_clear {h : 0 < limit} : smallSync.step { emptySync limit h with phase := .clear [] } .sync =
      .ok { emptySync limit h with phase := .count } := rfl

lemma advance_count {h : 0 < limit} : smallSync.step { emptySync limit h with phase := .count } .sync =
      .ok { emptySync limit h with phase := .list 1024 } :=
  congrArg (· >>= _) (keysInSlot_empty 0 0)

lemma advance_list {limit count : ℕ} {h : 0 < limit} : smallSync.step { emptySync limit h with phase := .list count } .sync =
      .ok { emptySync limit h with phase := .read [] } :=
  congrArg (· >>= _) (keysInSlot_empty 0 count)

lemma run_lists {h : 0 < limit} (events : List SyncEvent) :
    Runs.run smallSync.step (emptySync limit h) (.sync :: .sync :: .sync :: .sync :: events) =
      Runs.run smallSync.step { emptySync limit h with phase := .read [] } events := by
  rw [Runs.run_cons_ok advance_listTarget, Runs.run_cons_ok advance_clear,
    Runs.run_cons_ok advance_count, Runs.run_cons_ok advance_list]

end FullSync

end Protocol

end AutoCache
