import ApTelemetry.FqCodel.Guarantees

namespace ApTelemetry.FqCodel
open Lib

variable {H : Type} {flowsCnt : Nat}

/-- The entry of the drop log that a departure leaves: codel logs the TCP packets it drops, and
no other packet is logged. -/
def Departure.entry (hd : Headers H) (d : Departure H) : Option DropLog.Skb :=
  match d.fate with
  | .codel _ => hd.tcp d.skb.hdr
  | _ => none

def entries (hd : Headers H) (left : List (Departure H)) : List DropLog.Skb :=
  left.filterMap (Departure.entry hd)

theorem entries_append (hd : Headers H) (left left' : List (Departure H)) :
    entries hd (left ++ left') = entries hd left ++ entries hd left' := List.filterMap_append

/-- From `q` to `t` packets have `gone` from the flows, and `new` entries were logged: those of
the packets gone, and for each flow in the order in which these have left it. -/
structure Qdisc.Logs (hd : Headers H) (q t : Qdisc H flowsCnt) (new : List DropLog.Skb)
    (gone : Fin flowsCnt → List (Departure H)) : Prop where
  logged : t.logged = q.logged ++ new
  left : ∀ i, (t.flows i).left = (q.flows i).left ++ gone i
  all : (new : Multiset DropLog.Skb) = ∑ i, (entries hd (gone i) : Multiset DropLog.Skb)
  order : ∀ i, (entries hd (gone i)).Sublist new

def Qdisc.Grows (hd : Headers H) (q t : Qdisc H flowsCnt) : Prop := ∃ new gone, q.Logs hd t new gone

namespace Qdisc.Grows

variable {hd : Headers H} {q t u : Qdisc H flowsCnt}

/-- Nothing is logged where what leaves has no entries. -/
theorem silent (logged : t.logged = q.logged) (gone : Fin flowsCnt → List (Departure H))
    (left : ∀ i, (t.flows i).left = (q.flows i).left ++ gone i)
    (none : ∀ i, entries hd (gone i) = []) : q.Grows hd t := by
  refine ⟨[], gone, by rw [logged, List.append_nil], left, ?_, fun i => ?_⟩
  · simp only [none]
    exact Finset.sum_const_zero.symm
  · rw [none]

theorem same (logged : t.logged = q.logged) (left : ∀ i, (t.flows i).left = (q.flows i).left) :
    q.Grows hd t :=
  silent logged (fun _ => []) (fun i => (left i).trans (List.append_nil _).symm) fun _ => rfl

theorem refl (q : Qdisc H flowsCnt) : q.Grows hd q := same rfl fun _ => rfl

theorem trans (h : q.Grows hd t) (h' : t.Grows hd u) : q.Grows hd u := by
  obtain ⟨new, gone, logged, left, all, order⟩ := h
  obtain ⟨new', gone', logged', left', all', order'⟩ := h'
  refine ⟨new ++ new', fun i => gone i ++ gone' i, ?_, ?_, ?_, ?_⟩
  · rw [logged', logged, List.append_assoc]
  · intro i
    rw [left', left, List.append_assoc]
  · simp only [entries_append, ← Multiset.coe_add, Finset.sum_add_distrib, all, all']
  · intro i
    rw [entries_append]
    exact (order i).append (order' i)

/-- Only one flow changes. -/
theorem update {i : Fin flowsCnt} {new : List DropLog.Skb} {gone : List (Departure H)} {f : Flow H}
    (logged : t.logged = q.logged ++ new) (flows : t.flows = Function.update q.flows i f)
    (left : f.left = (q.flows i).left ++ gone) (all : entries hd gone = new) : q.Grows hd t := by
  refine ⟨new, Function.update (fun _ => []) i gone, logged, ?_, ?_, ?_⟩
  · intro j
    rw [flows]
    cases decEq j i with
    | isTrue hj =>
      subst hj
      rw [Function.update_self, Function.update_self, left]
    | isFalse hj =>
      rw [Function.update_of_ne hj, Function.update_of_ne hj, List.append_nil]
  · rw [Finset.sum_eq_single i]
    · rw [Function.update_self, all]
    · intro j _ hj
      rw [Function.update_of_ne hj]
      rfl
    · exact fun hi => absurd (Finset.mem_univ i) hi
  · refine update_forall (P := fun _ gone => (entries hd gone).Sublist new) ?_
      fun _ => List.nil_sublist _
    rw [all]

end Qdisc.Grows

/-- The same inside `codel_dequeue`. -/
structure Stage.Logs (hd : Headers H) (logged : List DropLog.Skb) (left : List (Departure H))
    (s : Stage H) (gone : List (Departure H)) : Prop where
  logged : s.codel.logged = logged ++ entries hd gone
  left : s.codel.left = left ++ gone

theorem Step.logs {hd : Headers H} {params : Params} {now : CodelTime} {s t : Stage H}
    {logged : List DropLog.Skb} {left : List (Departure H)} (h : Step hd params now s t)
    (hs : ∃ gone, s.Logs hd logged left gone) : ∃ gone, t.Logs hd logged left gone := by
  obtain ⟨gone, hlogged, hleft⟩ := hs
  cases h with
  | take skb queue c =>
    obtain ⟨firstAboveTime, hlooked, _⟩ := should_drop_looked params now (taken skb c) skb
    rw [hlooked]
    exact ⟨gone, hlogged, hleft⟩
  | empty => exact ⟨gone, hlogged, hleft⟩
  | drop skb queue c =>
    refine ⟨gone ++ [⟨skb, .codel ⟨params, now, c.backlog⟩⟩], ?_, ?_⟩
    · change c.logged ++ (hd.tcp skb.hdr).toList = _
      change c.logged = _ at hlogged
      rw [hlogged, entries_append, List.append_assoc]
      cases htcp : hd.tcp skb.hdr <;> simp [entries, Departure.entry, htcp]
    · change c.left ++ _ = _
      change c.left = _ at hleft
      rw [hleft, List.append_assoc]
  | mark => exact ⟨gone, hlogged, hleft⟩
  | ceMark => exact ⟨gone, hlogged, hleft⟩
  | control => exact ⟨gone, hlogged, hleft⟩
  | leave skb queue c =>
    refine ⟨gone ++ [⟨skb, .returned ⟨params, now, c.backlog⟩⟩], ?_, ?_⟩
    · change c.logged = _
      change c.logged = _ at hlogged
      rw [hlogged, entries_append]
      exact congrArg (logged ++ ·) (List.append_nil _).symm
    · change c.left ++ _ = _
      change c.left = _ at hleft
      rw [hleft, List.append_assoc]

section Calls

variable {hd : Headers H} {q t : Qdisc H flowsCnt}

theorem serve_grows (hd : Headers H) (now : CodelTime) (i : Fin flowsCnt) (q : Qdisc H flowsCnt) :
    q.Grows hd (serve hd now i q).2 := by
  obtain ⟨gone, hlogged, hleft⟩ :=
    (codel_dequeue_steps hd q.cparams now (q.codel i) (q.flows i).queue).keep
      (P := fun s => ∃ gone, s.Logs hd q.logged (q.flows i).left gone) (fun _ _ => Step.logs)
      ⟨[], (List.append_nil _).symm, (List.append_nil _).symm⟩
  exact .update hlogged rfl hleft rfl

theorem report_grows (q : Qdisc H flowsCnt) : q.Grows hd (report q) := by
  rw [report]
  split
  · exact .same rfl fun _ => rfl
  · exact .refl q

theorem passes_grows {clock : Nat → CodelTime} {fuel : Nat} {skb : Option (SkBuff H)}
    (hrun : passes hd fuel clock q = .ok (skb, t)) : q.Grows hd t := by
  induction fuel generalizing q clock with
  | zero => cases hrun
  | succ fuel ih =>
    rw [passes] at hrun
    have hpassed := pass_passed hd (clock 0) q
    generalize pass hd (clock 0) q = p at hrun hpassed
    cases hpassed with
    | empty =>
      cases hrun
      exact .refl _
    | refill isNew i =>
      have hmoved : q.Grows hd (moveToOld i (credit i q.quantum q)) :=
        .same rfl (credit_left q i q.quantum)
      exact hmoved.trans (ih hrun)
    | rotate i =>
      have hmoved : q.Grows hd (moveToOld i (serve hd (clock 0) i q).2) :=
        (serve_grows hd (clock 0) i q).trans (.same rfl fun _ => rfl)
      exact hmoved.trans (ih hrun)
    | retire isNew i =>
      have hretired : q.Grows hd (unlist i (serve hd (clock 0) i q).2) :=
        (serve_grows hd (clock 0) i q).trans (.same rfl fun _ => rfl)
      exact hretired.trans (ih hrun)
    | packet isNew i first funded skb =>
      cases hrun
      refine (serve_grows hd (clock 0) i q).trans (.trans ?_ (report_grows _))
      exact .same rfl (credit_left _ i _)

theorem trim_grows {clock : Nat → Nat → CodelTime} {fuel : Nat}
    (hrun : trim hd fuel clock q = .ok t) : q.Grows hd t := by
  induction fuel generalizing q clock with
  | zero =>
    rw [trim] at hrun
    split at hrun
    · cases hrun
    · cases hrun
      exact .refl _
  | succ fuel ih =>
    rw [trim] at hrun
    split at hrun
    · obtain ⟨⟨skb, u⟩, hdequeue, hrun⟩ := bind_ok hrun
      cases skb with
      | none => cases hrun
      | some skb =>
        have hfreed : u.Grows hd (freeOver skb u) := .same rfl fun _ => rfl
        exact (passes_grows hdequeue).trans (hfreed.trans (ih hrun))
    · cases hrun
      exact .refl _

variable [NeZero flowsCnt]

theorem drop_grows {idx : Fin flowsCnt} (hdrop : fqCodelDrop q = .ok (idx, t)) : q.Grows hd t := by
  simp only [fqCodelDrop] at hdrop
  split at hdrop
  · cases hdrop
  · cases hdrop
    exact .update (List.append_nil _).symm rfl rfl rfl

omit [NeZero flowsCnt] in
theorem wake_grows (hd : Headers H) (clears : Bool) (i : Fin flowsCnt) (skb : SkBuff H)
    (q : Qdisc H flowsCnt) : q.Grows hd (wake clears i (accept i skb q)) := by
  have haccept : q.Grows hd (accept i skb q) :=
    .update (List.append_nil _).symm rfl (List.append_nil _).symm rfl
  refine haccept.trans ?_
  rw [wake]
  split
  · exact .refl _
  · exact .update (List.append_nil _).symm rfl (List.append_nil _).symm rfl

theorem enqueue_grows {tc : Option (Int × U32)} {now : CodelTime} {skb : SkBuff H} {ret : Xmit}
    (hrun : fqCodelEnqueue hd tc now skb q = .ok (ret, t)) : q.Grows hd t := by
  simp only [fqCodelEnqueue] at hrun
  split at hrun
  · cases hrun
    exact .same rfl fun _ => rfl
  · cases hrun
    exact .refl q
  · split at hrun
    · rename_i idx _ hidx
      have hwoken := wake_grows hd true ⟨(idx - 1).toNat, hidx⟩
        { skb with enqueueTime := now } q
      generalize wake true _ _ = u at hrun hwoken
      refine hwoken.trans ?_
      split at hrun
      · cases hrun
        exact .refl _
      · obtain ⟨⟨fat, v⟩, hdrop, hrun⟩ := bind_ok hrun
        have hfull : u.Grows hd { u with dropOverlimit := u.dropOverlimit + 1 } :=
          .same rfl fun _ => rfl
        refine hfull.trans ((drop_grows hdrop).trans ?_)
        change (if fat = _ then _ else _) = _ at hrun
        split at hrun
        · cases hrun
          exact .refl v
        · cases hrun
          exact .same rfl fun _ => rfl
    · cases hrun

/-- Every call of the qdisc logs the TCP packets that codel drops in it, and nothing else. -/
theorem exec_grows {a : Action H} (hrun : exec hd q a = .ok t) : q.Grows hd t := by
  cases a with
  | enqueue tc now skb =>
    obtain ⟨⟨ret, u⟩, henqueue, hrun⟩ := bind_ok hrun
    refine (enqueue_grows henqueue).trans ?_
    change Except.ok (if ret = .success then sentHere u else u) = .ok t at hrun
    split at hrun
    · cases hrun
      exact .same rfl fun _ => rfl
    · cases hrun
      exact .refl _
  | dequeue clock =>
    obtain ⟨⟨skb, u⟩, hdequeue, hrun⟩ := bind_ok hrun
    refine (passes_grows hdequeue).trans ?_
    cases skb with
    | none =>
      cases hrun
      exact .refl u
    | some skb =>
      cases hrun
      exact .same rfl fun _ => rfl
  | drop =>
    obtain ⟨⟨len, u⟩, hlen, hrun⟩ := bind_ok hrun
    obtain ⟨⟨idx, v⟩, hdrop, hlen⟩ := bind_ok hlen
    cases hlen
    refine (drop_grows hdrop).trans ?_
    change Except.ok (if _ then u else gotBack u) = .ok t at hrun
    split at hrun
    · cases hrun
      exact .refl u
    · cases hrun
      exact .same rfl fun _ => rfl
  | reset =>
    cases hrun
    refine .silent rfl (fun i => (q.flows i).queue.map fun skb => ⟨skb, .reset⟩) (fun _ => rfl) ?_
    intro i
    rw [entries, List.filterMap_map]
    exact List.filterMap_eq_nil_iff.mpr fun _ _ => rfl
  | change opt clock =>
    obtain ⟨⟨answer, u⟩, hchange, hrun⟩ := bind_ok hrun
    cases hrun
    cases opt with
    | none =>
      cases hchange
      exact .refl q
    | some opt =>
      simp only [fqCodelChange] at hchange
      split at hchange
      · cases hchange
        exact .refl q
      · obtain ⟨v, htrim, hreport⟩ := bind_ok hchange
        cases hreport
        have hset : q.Grows hd (configure opt q) := .same rfl fun _ => rfl
        exact hset.trans ((trim_grows htrim).trans (.same rfl fun _ => rfl))

end Calls

end ApTelemetry.FqCodel
