import Axona.Moves.MergeMachine

/-! # The root election, in moves -/

namespace Axona

open Library

variable {cfg : Config} {P : Input → Prop} {n n' : Node}

namespace Moves

/-! ### Beacons -/

theorem refreshAccepted (t : TopicId) (root : NodeId) (epoch : Int) :
    Moves cfg P n (n.refreshAccepted cfg t root epoch) := by
  unfold Node.refreshAccepted
  split
  · exact .refl
  split
  · exact .refl
  next w _ =>
  split
  · next ρ _ _ _ _ =>
    have haccept : Moves cfg P n (n.modifyMerge ρ fun m =>
        { m with acceptedWinner := some ⟨w.id, epoch, n.now + cfg.stepDownHoldMs⟩ }) :=
      quietMerge rfl rfl
    simp only []
    split
    · split
      · exact haccept.trans (side rfl (.same rfl rfl))
      · exact haccept
    · exact haccept
  · exact .refl

variable {root : NodeId} {t : TopicId}

/-- A beacon refused leaves the record; one accepted is recorded, and may be yielded to. -/
theorem onBeaconTopic {epoch : Int} (hy : P .yield) (hb : P (.beacon t root epoch)) :
    Moves cfg P n (n.onBeaconTopic cfg root t epoch) := by
  unfold Node.onBeaconTopic
  simp only []
  have hrefresh : Moves cfg P n (n.refreshAccepted cfg t root epoch) := refreshAccepted t root epoch
  split
  · exact hrefresh
  have hrecord : Moves cfg P n ((n.refreshAccepted cfg t root epoch).recordBeacon t root epoch) :=
    andThen hrefresh (.heard hb)
  split
  · exact (hrecord.trans (rootTombstoned ..)).trans (mergeCandidate hy ..)
  · exact hrecord.trans (rootTombstoned ..)

theorem onRootBeacon {topics : List (TopicId × Option Int)} (hy : P .yield)
    (hb : ∀ e ∈ topics, P (.beacon e.1 root (beaconEpoch e.2))) :
    Moves cfg P n (n.onRootBeacon cfg root topics) :=
  moves_foldl (fun _ e he => onBeaconTopic hy (hb e (List.mem_of_mem_take he))) _

theorem pubsubPeerDied (hf : P .forget) (dead : NodeId) : Moves cfg P n (n.pubsubPeerDied dead) :=
  (one (.dropBeacons (fun _ b => b.root ≠ dead) hf)).trans (side rfl (.same rfl rfl))

theorem verifyRoot {closest : NodeId} (hy : P .yield) (hp : P (.plant t closest)) :
    Moves cfg P n (n.verifyRoot cfg t closest) := by
  unfold Node.verifyRoot
  split
  · exact .refl
  split
  · exact .refl
  split
  · exact .refl
  refine .trans ?_ (mergeCandidate hy ..)
  split
  · exact .refl
  · exact one (.plant _ hp)

/-! ### Convictions -/

theorem flightEvict {epoch : Int} (hf : P .forget) (hc : P (.convict t root epoch)) :
    Moves cfg P n (n.flightEvict t root epoch) := by
  unfold Node.flightEvict
  simp only []
  set n₁ := if (n.rootTombstones.get t).all fun prev => prev.epoch ≤ epoch then
      { n with rootTombstones := n.rootTombstones.set t ⟨root, epoch, n.now + rootTombstoneTtlMs⟩ }
    else n with hn₁
  have h₁ : Moves cfg P n n₁ := by
    rw [hn₁]
    split
    · next h =>
      have hexp : n.now < n.now + rootTombstoneTtlMs := Int.lt_add_of_pos_right _ (by decide)
      refine one (.convict _ hc hexp ?_)
      rintro c hget
      simpa [hget] using h
    · exact .refl
  set n₂ := if (n₁.rootBeacons.get t).any fun b => b.root = root && b.epoch.all (fun e => e ≤ epoch)
    then { n₁ with rootBeacons := n₁.rootBeacons.delete t } else n₁ with hn₂
  have h₂ : Moves cfg P n n₂ := by
    rw [hn₂]
    split
    · exact andThen h₁ (.dropBeacon t hf)
    · exact h₁
  split
  · exact h₂
  next ρ _ =>
  have hclear : Moves cfg P n (n₂.modifyMerge ρ fun m => { m with acceptedWinner := none }) :=
    h₂.trans (quietMerge rfl rfl)
  split
  · split
    · exact hclear.trans (side rfl (.same rfl rfl))
    · exact hclear
  · exact h₂

/-! ### Forwarded writes and departures -/

theorem forwardToRoot (t : TopicId) (dest : NodeId) : Moves cfg P n (n.forwardToRoot t dest) :=
  andPark (send _) trivial

theorem forwardVerdict {dest : NodeId} {rec : Option Beacon} (hy : P .yield) (hf : P .forget)
    (v : ForwardVerdict) : Moves cfg P n (n.forwardVerdict cfg t dest rec v) := by
  unfold Node.forwardVerdict
  split
  · exact mergeCandidate hy ..
  · split
    · split
      · exact one (.dropBeacon t hf)
      · exact .refl
    · exact .refl
  · exact .refl

theorem deferToRoot (hy : P .yield) (t : TopicId) (dest : NodeId) :
    Moves cfg P n (n.deferToRoot cfg t dest) :=
  andSend (mergeCandidate hy ..) _

theorem handoffArrived (hy : P .yield) (hf : P .forget) (t : TopicId) (leaver : Option NodeId) :
    Moves cfg P n (n.handoffArrived cfg t leaver) := by
  unfold Node.handoffArrived
  simp only []
  set n₁ := if leaver.any fun l => (n.rootBeacons.get t).any fun b => b.root = l then
      { n with rootBeacons := n.rootBeacons.delete t } else n with hn₁
  have h₁ : Moves cfg P n n₁ := by
    rw [hn₁]
    split
    · exact one (.dropBeacon t hf)
    · exact .refl
  have h₂ : Moves cfg P n (n₁.liveCloserRoot cfg t true).2 := h₁.trans (liveCloserRoot ..)
  split
  next heq => rwa [heq] at h₂
  next heq =>
  rw [heq] at h₂
  split
  · exact h₂
  · exact h₂.trans (mergeCandidate hy ..)

end Moves

end Axona
