import PgChdb.Helper.Program

namespace PgChdb.Program

open CText Machine
open Process (Errno chdbHelperLostBackend)

/-!
# libchdb's objects, from call to call

The helper holds results, streams and insert streams of libchdb's, prints and writes bytes that
belong to them, and destroys them, on every path of four functions.  A ledger of the calls
made so far says which objects live and what state they are in.  A call that the ledger has no
room for is one that libchdb does not allow: an object used before it is returned or after it
is destroyed, a stream fetched from past its end, cancelled twice or destroyed in the middle,
blocks appended to an insert that is over, the connection closed under a live object.

* `ObjectState`, `Call.returns`, `Call.changes` — the life of an object;
* `Ledger`, `Ledger.next`, `ledger` — the objects that live after some calls;
* `Ledger.next_names` — all that a call does to the names of the objects;
* `Alive`, `mem_names_iff` — the ledger in terms of the calls alone;
* `Keeping` — the ledger at a point of the program, and a lemma for each function;
* `main_objects` — every call is allowed, and when `main` returns nothing lives.
-/

/-! ### The life of an object -/

/-- What has become of an object. -/
inductive ObjectState where
  | result
  /-- A stream, and whether it has ended, failed or been cancelled. -/
  | stream (ended : Bool)
  /-- An insert that has not been asked for its error. -/
  | insertFresh
  | insert (ended : Bool)
  deriving DecidableEq, Repr

/-- The object a call returns, as it is then. -/
def Call.returns : Call → Option ObjectState
  | .session _ _ | .query _ _ _ | .fetchResult _ _ | .done _ _ => some .result
  | .streamQuery _ _ reply => some (.stream !reply.isOk)
  | .streamInsert _ _ => some .insertFresh
  | _ => none

/-- The object a call is about, or whose memory it reads. -/
def Call.uses : Call → Option ℕ
  | .write _ owner _ => owner
  | .fetchResult o _ | .cancelQuery o | .look o | .destroyResult o | .insertError o _
  | .append o _ _ | .done o _ | .cancelInsert o | .destroyInsert o => some o
  | _ => none

/-- What it makes of that object, or none when the object is destroyed; there is nothing it
    makes of an object in a state that it is not for. -/
def Call.changes : Call → ObjectState → Option (Option ObjectState)
  | .write _ _ _, st => some (some st)
  | .look _, .result => some (some .result)
  | .look _, .stream ended => some (some (.stream ended))
  | .fetchResult _ (.ok []), .stream false => some (some (.stream true))
  | .fetchResult _ _, .stream false => some (some (.stream false))
  | .cancelQuery _, .stream false => some (some (.stream true))
  | .destroyResult _, .result => some none
  | .destroyResult _, .stream true => some none
  | .insertError _ error, .insertFresh => some (some (.insert error.isSome))
  | .insertError _ _, .insert false => some (some (.insert false))
  | .append _ _ _, .insert false => some (some (.insert false))
  | .done _ _, .insert false => some (some (.insert true))
  | .cancelInsert _, .insert false => some (some (.insert true))
  | .destroyInsert _, .insert true => some none
  | _, _ => none

/-! ### The ledger -/

/-- The number of calls made, the objects that live, and whether there is a connection. -/
structure Ledger where
  made : ℕ
  live : List (ℕ × ObjectState)
  connected : Bool
  deriving DecidableEq

namespace Ledger

def start : Ledger := { made := 0, live := [], connected := false }

def names (l : Ledger) : List ℕ := l.live.map Prod.fst

/-- The objects with what the call makes of the one it is about. -/
def use (l : Ledger) (c : Call) : Option (List (ℕ × ObjectState)) :=
  match c.uses with
  | none => some l.live
  | some o =>
    match (l.live.lookup o).bind c.changes with
    | none => none
    | some none => some (l.live.filter fun p => p.1 ≠ o)
    | some (some st) => some (l.live.map fun p => if p.1 = o then (p.1, st) else p)

/-- The connection, which is closed only when nothing lives, and which queries need. -/
def connection (l : Ledger) : Call → Option Bool
  | .connect success => if l.connected then none else some success
  | .closeConn => if l.connected ∧ l.live = [] then some false else none
  | .session _ _ | .query _ _ _ | .streamQuery _ _ _ | .streamInsert _ _ =>
    if l.connected then some true else none
  | _ => some l.connected

/-- What a call makes of the ledger, if it is allowed. -/
def next (l : Ledger) (c : Call) : Option Ledger :=
  (l.use c).bind fun live => (l.connection c).map fun connected =>
    { made := l.made + 1, live := (c.returns.map (l.made, ·)).toList ++ live, connected }

end Ledger

/-- The ledger after those calls, if all of them were allowed. -/
def ledger (log : List Call) : Option Ledger := log.foldlM Ledger.next .start

@[simp] theorem ledger_concat (log : List Call) (c : Call) :
    ledger (log ++ [c]) = (ledger log).bind fun l => l.next c := by
  simp [ledger, List.foldlM_append]

/-! ### The ledger in terms of the calls -/

/-- The object it destroys. -/
def Call.destroys : Call → Option ℕ
  | .destroyResult o | .destroyInsert o => some o
  | _ => none

/-- The object was returned by one of the calls and destroyed by none. -/
def Alive (o : ℕ) (log : List Call) : Prop :=
  (∃ c, log[o]? = some c ∧ c.returns.isSome) ∧ ∀ d ∈ log, d.destroys ≠ some o

section
variable {l l' : Ledger} {c : Call} {o : ℕ}

/-- An object is destroyed by the calls that destroy it. -/
theorem Call.destroys_of_changes {st : ObjectState} {r : Option ObjectState}
    (h : c.changes st = some r) : c.destroys = if r.isNone then c.uses else none := by
  unfold Call.changes at h
  split at h
  all_goals first | (cases h; rfl) | cases h

theorem Call.destroys_of_uses (h : c.uses = none) : c.destroys = none := by
  cases c <;> first | rfl | cases h

theorem Call.uses_of_destroys (h : c.destroys = some o) : c.uses = some o := by
  cases c <;> first | exact h | cases h

/-- No call returns one object and destroys another. -/
theorem Call.destroys_of_returns (h : c.returns.isSome) : c.destroys = none := by
  cases c <;> first | rfl | cases h

theorem mem_names_of_lookup {st : ObjectState} (h : l.live.lookup o = some st) : o ∈ l.names := by
  obtain ⟨before, after, hlive, -⟩ := List.lookup_eq_some_iff.mp h
  unfold Ledger.names
  rw [hlive]
  simp

/-- What a call is about lives, and goes only when it is destroyed. -/
theorem Ledger.use_names {live : List (ℕ × ObjectState)} (h : l.use c = some live) :
    (∀ o, c.uses = some o → o ∈ l.names) ∧
      live.map Prod.fst = l.names.filter fun o => c.destroys ≠ some o := by
  unfold Ledger.use at h
  cases huses : c.uses with
  | none =>
    rw [huses] at h
    cases h
    rw [c.destroys_of_uses huses]
    exact ⟨nofun, by simp [Ledger.names]⟩
  | some o =>
    rw [huses] at h
    dsimp only at h
    cases hchange : (l.live.lookup o).bind c.changes with
    | none => rw [hchange] at h; cases h
    | some r =>
      rw [hchange] at h
      obtain ⟨st, hst, hr⟩ := Option.bind_eq_some_iff.mp hchange
      have hdestroys := c.destroys_of_changes hr
      refine ⟨?_, ?_⟩
      · rintro _ ⟨⟩
        exact mem_names_of_lookup hst
      · cases r with
        | none =>
          cases h
          rw [hdestroys, huses]
          simp [Ledger.names, List.filter_map, Function.comp_def, eq_comm]
        | some st' =>
          cases h
          rw [hdestroys]
          simp [Ledger.names, Function.comp_def, apply_ite Prod.fst]

/-- A new name is the number of the call; a name goes when its object is destroyed; and only
    what has a name is used. -/
theorem Ledger.next_names (h : l.next c = some l') :
    l'.made = l.made + 1 ∧ (∀ o, c.uses = some o → o ∈ l.names) ∧
      l'.names = (c.returns.map fun _ => l.made).toList ++
        l.names.filter fun o => c.destroys ≠ some o := by
  obtain ⟨live, huse, hl⟩ := Option.bind_eq_some_iff.mp h
  obtain ⟨connected, -, rfl⟩ := Option.map_eq_some_iff.mp hl
  obtain ⟨huses, hnames⟩ := Ledger.use_names huse
  refine ⟨rfl, huses, ?_⟩
  show List.map Prod.fst (_ ++ live) = _
  rw [List.map_append, hnames]
  cases c.returns <;> rfl

theorem alive_concat {log : List Call}
    (hlt : ∀ d ∈ log, ∀ o, d.destroys = some o → o < log.length) :
    Alive o (log ++ [c]) ↔
      (c.returns.isSome ∧ o = log.length ∨ Alive o log) ∧ c.destroys ≠ some o := by
  have hmem : (∀ d ∈ log ++ [c], d.destroys ≠ some o) ↔
      (∀ d ∈ log, d.destroys ≠ some o) ∧ c.destroys ≠ some o := by
    simp [or_imp, forall_and]
  unfold Alive
  rw [hmem]
  rcases lt_trichotomy o log.length with hlt' | heq | hgt
  · rw [List.getElem?_append_left hlt']
    have hne : ¬ (c.returns.isSome ∧ o = log.length) := fun h => absurd h.2 (Nat.ne_of_lt hlt')
    tauto
  · -- the object this call returns: none of the calls before has heard of it
    subst heq
    have hnone : ∀ d ∈ log, d.destroys ≠ some log.length :=
      fun d hd h => absurd (hlt d hd _ h) (Nat.lt_irrefl _)
    have hlast : (log ++ [c])[log.length]? = some c := by simp
    have hbefore : log[log.length]? = none := by simp
    simp only [hlast, hbefore]
    constructor
    · rintro ⟨⟨d, hd, hret⟩, -, hkeep⟩
      cases hd
      exact ⟨Or.inl ⟨hret, trivial⟩, hkeep⟩
    · rintro ⟨⟨hret, -⟩ | ⟨⟨d, hd, -⟩, -⟩, hkeep⟩
      · exact ⟨⟨c, rfl, hret⟩, hnone, hkeep⟩
      · cases hd
  · have hnone : (log ++ [c])[o]? = none := by
      rw [List.getElem?_eq_none_iff, List.length_append, List.length_singleton]
      omega
    have hnone' : log[o]? = none := List.getElem?_eq_none_iff.mpr (Nat.le_of_lt hgt)
    have hne : o ≠ log.length := Nat.ne_of_gt hgt
    simp [hnone, hnone', hne]

/-- **The ledger lists the objects that live**, each once. -/
theorem ledger_spec {log : List Call} (h : ledger log = some l) :
    l.made = log.length ∧ (∀ o, o ∈ l.names ↔ Alive o log) ∧ l.names.Nodup ∧
      ∀ d ∈ log, ∀ o, d.destroys = some o → o < log.length := by
  induction log using List.reverseRecOn generalizing l with
  | nil =>
    cases h
    exact ⟨rfl, by simp [Ledger.start, Ledger.names, Alive], List.nodup_nil, nofun⟩
  | append_singleton log c ih =>
    rw [ledger_concat] at h
    obtain ⟨l₀, hl₀, hnext⟩ := Option.bind_eq_some_iff.mp h
    obtain ⟨hmade, hnames, hnodup, hlt⟩ := ih hl₀
    obtain ⟨hmade', huses, hnames'⟩ := Ledger.next_names hnext
    have hbound : ∀ o ∈ l₀.names, o < log.length := by
      intro o ho
      obtain ⟨⟨d, hd, -⟩, -⟩ := (hnames o).mp ho
      exact (List.getElem?_eq_some_iff.mp hd).1
    have hlt' : ∀ d ∈ log ++ [c], ∀ o, d.destroys = some o → o < (log ++ [c]).length := by
      intro d hd o ho
      rw [List.length_append]
      rcases List.mem_append.mp hd with hd | hd
      · exact Nat.lt_add_right _ (hlt d hd o ho)
      · rw [List.mem_singleton.mp hd] at ho
        exact Nat.lt_add_right _ (hbound o (huses o (c.uses_of_destroys ho)))
    refine ⟨by rw [hmade', hmade]; simp, fun o => ?_, ?_, hlt'⟩
    · rw [alive_concat hlt, hnames', hmade, List.mem_append, List.mem_filter, hnames o]
      have hnew : o ∈ (c.returns.map fun _ => log.length).toList ↔
          c.returns.isSome ∧ o = log.length := by
        cases c.returns <;> simp
      rw [hnew, decide_eq_true_iff]
      constructor
      · rintro (⟨hret, rfl⟩ | ⟨halive, hkeep⟩)
        · exact ⟨Or.inl ⟨hret, rfl⟩, by rw [c.destroys_of_returns hret]; nofun⟩
        · exact ⟨Or.inr halive, hkeep⟩
      · rintro ⟨hnew | halive, hkeep⟩
        · exact Or.inl hnew
        · exact Or.inr ⟨halive, hkeep⟩
    · rw [hnames']
      refine List.nodup_append.mpr ⟨?_, hnodup.filter _, ?_⟩
      · cases c.returns <;> simp
      · rintro o ho _ hold rfl
        have hlen := hbound o (List.mem_of_mem_filter hold)
        cases hret : c.returns with
        | none => rw [hret] at ho; simp at ho
        | some st =>
          rw [hret] at ho
          have heq : o = log.length := by simpa [hmade] using ho
          exact absurd heq (Nat.ne_of_lt hlen)

end

/-! ### The functions -/

/-- The objects that live at a point of the program, and whether there is a connection. -/
def Keeping (live : List (ℕ × ObjectState)) (connected : Bool) (log : List Call) : Prop :=
  ledger log = some { made := log.length, live, connected }

/-- Every call so far was allowed. -/
def Kept (_ : Stop) (log : List Call) : Prop := (ledger log).isSome

section
variable {env : Env} {α : Type} {log : List Call} {live live' : List (ℕ × ObjectState)}
variable {connected connected' : Bool} {c : Call} {s : ℕ}

theorem Keeping.kept {e : Stop} (h : Keeping live connected log) : Kept e log := by
  unfold Kept
  rw [h]
  rfl

theorem Keeping.spec (h : Keeping live connected log) :
    (∀ p ∈ live, p.1 < log.length) ∧ (live.map Prod.fst).Nodup := by
  obtain ⟨-, hnames, hnodup, -⟩ := ledger_spec h
  refine ⟨fun p hp => ?_, hnodup⟩
  obtain ⟨⟨d, hd, -⟩, -⟩ := (hnames p.1).mp (List.mem_map_of_mem hp)
  exact (List.getElem?_eq_some_iff.mp hd).1

theorem Keeping.concat (h : Keeping live connected log)
    (hnext : Ledger.next { made := log.length, live, connected } c =
      some { made := log.length + 1, live := live', connected := connected' }) :
    Keeping live' connected' (log ++ [c]) := by
  unfold Keeping
  rw [ledger_concat, h, List.length_append]
  exact hnext

/-- A call on no object. -/
theorem Keeping.idle (h : Keeping live connected log) (huses : c.uses = none)
    (hreturns : c.returns = none) (hconn : ∀ l, Ledger.connection l c = some l.connected) :
    Keeping live connected (log ++ [c]) := by
  refine h.concat ?_
  simp [Ledger.next, Ledger.use, huses, hreturns, hconn]

/-- A call that returns an object, about none. -/
theorem Keeping.returned {st : ObjectState} (h : Keeping live true log) (huses : c.uses = none)
    (hreturns : c.returns = some st)
    (hconn : ∀ l : Ledger, l.connected = true → l.connection c = some true) :
    Keeping ((log.length, st) :: live) true (log ++ [c]) := by
  refine h.concat ?_
  simp [Ledger.next, Ledger.use, huses, hreturns, hconn]

/-- No other object has the name of the one returned last. -/
theorem Keeping.others {o : ℕ} {st : ObjectState} (h : Keeping ((o, st) :: live) connected log) :
    ∀ p ∈ live, p.1 ≠ o := by
  intro p hp heq
  exact (List.nodup_cons.mp h.spec.2).1 (List.mem_map.mpr ⟨p, hp, heq⟩)

/-- A call about the object returned last, which it leaves in another state. -/
theorem Keeping.changed {o : ℕ} {st st' : ObjectState} (h : Keeping ((o, st) :: live) connected log)
    (huses : c.uses = some o) (hchanges : c.changes st = some (some st'))
    (hconn : ∀ l, Ledger.connection l c = some l.connected) :
    Keeping ((c.returns.map (log.length, ·)).toList ++ (o, st') :: live) connected
      (log ++ [c]) := by
  have hrest : (live.map fun p => if p.1 = o then (p.1, st') else p) = live :=
    (List.map_congr_left fun p hp => if_neg (h.others p hp)).trans (List.map_id live)
  refine h.concat ?_
  simp [Ledger.next, Ledger.use, huses, hconn, hchanges, hrest]

/-- A call that leaves it as it was. -/
theorem Keeping.used {o : ℕ} {st : ObjectState} (h : Keeping ((o, st) :: live) connected log)
    (huses : c.uses = some o) (hchanges : c.changes st = some (some st))
    (hreturns : c.returns = none)
    (hconn : ∀ l, Ledger.connection l c = some l.connected) :
    Keeping ((o, st) :: live) connected (log ++ [c]) := by
  have hchanged := h.changed huses hchanges hconn
  rwa [hreturns] at hchanged

/-- A call that destroys it. -/
theorem Keeping.destroyed {o : ℕ} {st : ObjectState} (h : Keeping ((o, st) :: live) connected log)
    (huses : c.uses = some o) (hchanges : c.changes st = some none) (hreturns : c.returns = none)
    (hconn : ∀ l, Ledger.connection l c = some l.connected) :
    Keeping live connected (log ++ [c]) := by
  have hrest : (live.filter fun p => p.1 ≠ o) = live :=
    List.filter_eq_self.mpr fun p hp => decide_eq_true (h.others p hp)
  refine h.concat ?_
  simpa [Ledger.next, Ledger.use, huses, hreturns, hconn, hchanges] using hrest

/-- The bytes are the program's, or those of the object returned last. -/
def Text.Of (text : Text) : List (ℕ × ObjectState) → Prop
  | [] => text.owner = none
  | (o, _) :: _ => ∀ o', text.owner = some o' → o' = o

/-- A call that writes from that memory. -/
theorem Keeping.write {fd : Fd} {text : Text} {answer : Except Errno Bytes}
    (h : Keeping live connected log) (hown : text.Of live) :
    Keeping live connected (log ++ [.write fd text.owner answer]) := by
  cases howner : text.owner with
  | none => exact h.idle rfl rfl fun _ => rfl
  | some o =>
    cases live with
    | nil => exact absurd (howner.symm.trans hown) nofun
    | cons p live =>
      rw [hown o howner]
      exact h.used rfl rfl rfl fun _ => rfl

theorem say_keeps {text : Text} (h : Keeping live connected log) (hown : text.Of live) :
    Machine.Ends (say env text) log (fun _ => Keeping live connected) Kept := by
  refine ends_forever (fun text t => Keeping live connected t ∧ text.Of live) ?_ ?_ ⟨h, ?_⟩
  · rintro text t ⟨hkeep, hown⟩
    refine ends_ite (fun _ => hkeep) (fun _ => ?_)
    rw [ends_bind]
    refine ends_sysWrite (fun n => ⟨hkeep.write hown, ?_⟩) (fun errno _ => hkeep.write hown)
      (hkeep.write hown).kept
    cases live <;> exact hown
  · rintro text t ⟨hkeep, -⟩
    exact hkeep.kept
  · cases live <;> exact hown

theorem fail_keeps {what : Bytes} {Q : α → List Call → Prop} (h : Keeping live connected log) :
    Machine.Ends (fail env what : Run α) log Q Kept := by
  refine (say_keeps h ?_).seq fun _ t ht => ?_
  · cases live with
    | nil => rfl
    | cons p live => exact nofun
  · have hexit : Keeping live connected (t ++ [.exit 1]) := ht.idle rfl rfl fun _ => rfl
    exact hexit.kept (e := .exits 1)

theorem notNull_keeps (h : Keeping live connected log) :
    Machine.Ends (notNull env) log (fun _ => Keeping live connected) Kept := by
  have halloc : ∀ success, Keeping live connected (log ++ [.alloc success]) :=
    fun success => h.idle rfl rfl fun _ => rfl
  unfold notNull
  rw [ends_bind, ends_get, ends_bind, ends_record]
  exact ends_ite (fun _ => halloc _) fun _ => fail_keeps (halloc _)

theorem readSetup_keeps (h : Keeping live connected log) :
    Machine.Ends (readSetup env) log (fun _ => Keeping live connected) Kept := by
  refine (notNull_keeps h).seq fun _ t ht => ?_
  refine ends_forever (fun _ => Keeping live connected) (fun b t hb => ?_)
    (fun b t hb => hb.kept) ht
  unfold readSetupTurn
  cases grow b with
  | error e => exact fail_keeps hb
  | ok b' =>
    refine Machine.Ends.seq (P := fun _ => Keeping live connected)
      (ends_onlyIf (fun _ => notNull_keeps hb) fun _ => hb) fun _ u hu => ?_
    have hread : ∀ answer, Keeping live connected (u ++ [.read .setup answer]) :=
      fun answer => hu.idle rfl rfl fun _ => rfl
    rw [ends_bind]
    refine ends_sysRead (fun bytes => ?_) (fun errno => ?_)
    · exact ends_ite (fun _ => hread _) fun _ => hread _
    · exact ends_ite (fun _ => hread _) fun _ => fail_keeps (hread _)

theorem readRequest_keeps (h : Keeping live connected log) :
    Machine.Ends (readRequest env) log (fun _ => Keeping live connected) Kept := by
  refine (readSetup_keeps h).seq fun p t₀ h₀ => ?_
  rw [ends_bind]
  refine ends_taking (fun r _ => ?_) (fail_keeps h₀)
  refine (notNull_keeps h₀).seq fun _ t₁ h₁ => ?_
  refine (notNull_keeps h₁).seq fun _ t₂ h₂ => ?_
  refine (notNull_keeps h₂).seq fun _ t₃ h₃ => ?_
  refine (notNull_keeps h₃).seq fun _ t₄ h₄ => ?_
  rw [ends_bind]
  exact ends_taking (fun r' _ => h₄) (fail_keeps h₄)

theorem connect_keeps (h : Keeping [] false log) :
    Machine.Ends (connect env) log (fun _ => Keeping [] true) Kept := by
  have henabled : Keeping [] false (log ++ [.setSignalHandlersEnabled false]) :=
    h.idle rfl rfl fun _ => rfl
  unfold connect
  rw [ends_bind, ends_record, ends_bind, ends_get, ends_bind, ends_record]
  refine ends_ite (fun hok => ?_) (fun hfailed => ?_)
  · rw [hok]
    exact henabled.concat rfl
  · rw [Bool.not_eq_true] at hfailed
    rw [hfailed]
    have hnone : Keeping [] false (log ++ [.setSignalHandlersEnabled false] ++ [.connect false]) :=
      henabled.concat rfl
    exact fail_keeps hnone

theorem writeAll_keeps {t : Text} (h : Keeping live connected log) (hown : t.Of live) :
    Machine.Ends (writeAll env t) log (fun _ => Keeping live connected) Kept := by
  refine ends_forever (fun text t => Keeping live connected t ∧ text.Of live) ?_ ?_ ⟨h, hown⟩
  · rintro text t ⟨hkeep, hown⟩
    refine ends_ite (fun _ => hkeep) (fun _ => ?_)
    rw [ends_bind]
    refine ends_sysWrite (fun n => ⟨hkeep.write hown, ?_⟩) (fun errno _ => ?_)
      (hkeep.write hown).kept
    · cases live <;> exact hown
    · exact ends_ite (fun _ => ⟨hkeep.write hown, hown⟩) fun _ => hkeep.write hown
  · rintro text t ⟨hkeep, -⟩
    exact hkeep.kept

theorem openSession_keeps (x : SetupRequest) (h : Keeping [] true log) :
    Machine.Ends (openSession env x) log (fun _ => Keeping [] true) Kept := by
  unfold openSession
  rw [ends_bind]
  refine ends_obtain fun reply => ?_
  have hres := h.returned
    (c := .session (setupSession x.maxMem x.maxThreads x.maxParsers x.timezone)
    reply) rfl rfl fun l hl => if_pos hl
  have hlook := hres.used (c := .look log.length) rfl rfl rfl fun _ => rfl
  rw [ends_bind]
  refine ends_resultError (fun text _ => ?_) (fun bytes _ => ?_)
  · refine (say_keeps hlook (by rintro _ ⟨⟩; rfl)).seq fun _ t ht => ?_
    exact ht.destroyed rfl rfl rfl fun _ => rfl
  · exact hlook.destroyed rfl rfl rfl fun _ => rfl

/-- A chunk is destroyed before the next is fetched; the stream is over exactly when the status
    is 0. -/
theorem selectTurn_keeps (h : Keeping [(s, .stream false)] true log) :
    Machine.Ends (selectTurn env s ()) log (Sum.elim (fun _ => Keeping [(s, .stream false)] true)
      fun status => Keeping [(s, .stream (decide (status = 0)))] true) Kept := by
  unfold selectTurn
  rw [ends_bind]
  refine ends_obtain fun reply => ?_
  rw [ends_bind]
  refine ends_resultError (fun text herror => ?_) (fun bytes hok => ?_)
  · cases reply with
    | ok bytes => cases herror
    | error error =>
      have hchunk := h.changed (c := .fetchResult s (.error error)) rfl rfl fun _ => rfl
      have hlook := hchunk.used (c := .look log.length) rfl rfl rfl fun _ => rfl
      refine (say_keeps hlook (by rintro _ ⟨⟩; rfl)).seq fun _ t ht => ?_
      exact ht.destroyed rfl rfl rfl fun _ => rfl
  · cases reply with
    | error error => cases hok
    | ok bytes' =>
      cases hok
      rw [ends_bind]
      refine ends_resultBuffer rfl (fun hnil => ?_) (fun hne => ?_)
      · subst hnil
        have hchunk := h.changed (c := .fetchResult s (.ok [])) rfl rfl fun _ => rfl
        have hlook := hchunk.used (c := .look log.length) rfl rfl rfl fun _ => rfl
        have hlook' := hlook.used (c := .look log.length) rfl rfl rfl fun _ => rfl
        exact hlook'.destroyed rfl rfl rfl fun _ => rfl
      · have hchanges : (Call.fetchResult s (.ok bytes)).changes (.stream false) =
            some (some (.stream false)) := by
          cases bytes with
          | nil => exact absurd rfl hne
          | cons b bytes => rfl
        have hchunk := h.changed (c := .fetchResult s (.ok bytes)) rfl hchanges fun _ => rfl
        have hlook := hchunk.used (c := .look log.length) rfl rfl rfl fun _ => rfl
        have hlook' := hlook.used (c := .look log.length) rfl rfl rfl fun _ => rfl
        have hlook'' := hlook'.used (c := .look log.length) rfl rfl rfl fun _ => rfl
        refine (writeAll_keeps (t := ⟨some log.length, bytes⟩) hlook''
          (by rintro _ ⟨⟩; rfl)).seq fun written t ht => ?_
        have hdestroyed := ht.destroyed (c := .destroyResult log.length) rfl rfl rfl fun _ => rfl
        exact ends_ite (fun _ => hdestroyed) fun _ => hdestroyed

theorem runSelect_keeps (text : Bytes) (params : List (Bytes × Bytes)) (h : Keeping [] true log) :
    Machine.Ends (runSelect env text params) log (fun _ => Keeping [] true) Kept := by
  unfold runSelect
  rw [ends_bind]
  refine ends_obtain fun reply => ?_
  have hopened := h.returned (c := .streamQuery text params reply) rfl rfl fun l hl => if_pos hl
  have hlook := hopened.used (c := .look log.length) rfl rfl rfl fun _ => rfl
  rw [ends_bind]
  refine ends_resultError (fun error herror => ?_) (fun bytes hok => ?_)
  · refine (say_keeps hlook (by rintro _ ⟨⟩; rfl)).seq fun _ t ht => ?_
    cases reply with
    | ok bytes => cases herror
    | error error => exact ht.destroyed rfl rfl rfl fun _ => rfl
  · cases reply with
    | error error => cases hok
    | ok bytes' =>
      refine Machine.Ends.seq (ends_forever (fun _ => Keeping [(log.length, .stream false)] true)
        (fun _ t ht => selectTurn_keeps ht) (fun _ t ht => ht.kept) hlook) fun status t ht => ?_
      rw [ends_bind]
      refine ends_onlyIf (fun hne => ?_) (fun hzero => ?_)
      · rw [decide_eq_false hne] at ht
        have hcanceled := ht.changed (c := .cancelQuery log.length) rfl rfl fun _ => rfl
        exact hcanceled.destroyed rfl rfl rfl fun _ => rfl
      · rw [decide_eq_true (not_not.mp hzero)] at ht
        exact ht.destroyed rfl rfl rfl fun _ => rfl

theorem runQuery_keeps (text : Bytes) (params : List (Bytes × Bytes)) (h : Keeping [] true log) :
    Machine.Ends (runQuery env text params) log (fun _ => Keeping [] true) Kept := by
  unfold runQuery
  rw [ends_bind]
  refine ends_obtain fun reply => ?_
  have hres := h.returned (c := .query text params reply) rfl rfl fun l hl => if_pos hl
  have hlook := hres.used (c := .look log.length) rfl rfl rfl fun _ => rfl
  rw [ends_bind]
  refine ends_resultError (fun error herror => ?_) (fun bytes hok => ?_)
  · refine (say_keeps hlook (by rintro _ ⟨⟩; rfl)).seq fun _ t ht => ?_
    exact ht.destroyed rfl rfl rfl fun _ => rfl
  · have hlook' := hlook.used (c := .look log.length) rfl rfl rfl fun _ => rfl
    rw [ends_bind]
    refine ends_resultBuffer hok (fun _ => hlook'.destroyed rfl rfl rfl fun _ => rfl) (fun _ => ?_)
    have hlook'' := hlook'.used (c := .look log.length) rfl rfl rfl fun _ => rfl
    refine (writeAll_keeps hlook'' (by rintro _ ⟨⟩; rfl)).seq fun written t ht => ?_
    have hdestroyed := ht.destroyed (c := .destroyResult log.length) rfl rfl rfl fun _ => rfl
    exact ends_ite (fun _ => hdestroyed) fun _ => hdestroyed

/-- The insert is open from one turn to the next, and one given up is destroyed. -/
theorem insertTurn_keeps (h : Keeping [(s, .insert false)] true log) :
    Machine.Ends (insertTurn env s ()) log (Sum.elim (fun _ => Keeping [(s, .insert false)] true)
      fun r => match r with
        | none => Keeping [(s, .insert false)] true
        | some _ => Keeping [] true) Kept := by
  have hgive : ∀ t, Keeping [(s, .insert false)] true t →
      Keeping [] true (t ++ [.cancelInsert s] ++ [.destroyInsert s]) := by
    intro t ht
    have hcanceled := ht.changed (c := .cancelInsert s) rfl rfl fun _ => rfl
    exact hcanceled.destroyed rfl rfl rfl fun _ => rfl
  have hread : ∀ answer, Keeping [(s, .insert false)] true (log ++ [.read .stdin answer]) :=
    fun answer => h.idle rfl rfl fun _ => rfl
  unfold insertTurn
  rw [ends_bind]
  refine ends_sysRead (fun bytes => ?_) (fun errno => ?_)
  · refine ends_ite (fun _ => hread _) (fun _ => ?_)
    rw [ends_bind, ends_get, ends_bind, ends_record]
    have happend := fun success => (hread (.ok bytes)).used (c := .append s bytes success)
      rfl rfl rfl fun _ => rfl
    refine ends_ite (fun _ => happend _) (fun _ => ?_)
    rw [ends_bind]
    refine ends_streamInsertError fun error => ?_
    have hasked := (happend (env.append (log ++ [.read .stdin (.ok bytes)]))).used
      (c := .insertError s error) rfl rfl rfl fun _ => rfl
    cases error with
    | none => exact (say_keeps hasked (by rintro _ ⟨⟩)).seq fun _ t ht => hgive t ht
    | some text =>
      exact (say_keeps hasked (by rintro _ ⟨⟩; rfl)).seq fun _ t ht => hgive t ht
  · exact ends_ite (fun _ => hread _) fun _ => hgive _ (hread _)

theorem runInsert_keeps (text : Bytes) (params : List (Bytes × Bytes)) (h : Keeping [] true log) :
    Machine.Ends (runInsert env text params) log (fun _ => Keeping [] true) Kept := by
  have hopened := h.returned (c := .streamInsert text params) rfl rfl fun l hl => if_pos hl
  unfold runInsert
  rw [ends_bind, ends_get, ends_bind, ends_record, ends_bind]
  refine ends_streamInsertError fun error => ?_
  have hasked := hopened.changed (c := .insertError log.length error) rfl rfl fun _ => rfl
  cases error with
  | some error =>
    refine (say_keeps hasked (by rintro _ ⟨⟩; rfl)).seq fun _ t ht => ?_
    exact ht.destroyed rfl rfl rfl fun _ => rfl
  | none =>
    refine (notNull_keeps hasked).seq fun _ t₁ h₁ => ?_
    refine Machine.Ends.seq (ends_forever (fun _ => Keeping [(log.length, .insert false)] true)
      (fun _ t ht => insertTurn_keeps ht) (fun _ t ht => ht.kept) h₁) fun r t₂ h₂ => ?_
    cases r with
    | some status => exact h₂
    | none =>
      rw [ends_bind]
      refine ends_obtain fun reply => ?_
      have hdone := h₂.changed (c := .done log.length reply) rfl rfl fun _ => rfl
      have hlook := hdone.used (c := .look t₂.length) rfl rfl rfl fun _ => rfl
      have hdestroy : ∀ t, Keeping [(t₂.length, .result), (log.length, .insert true)] true t →
          Keeping [] true (t ++ [.destroyResult t₂.length] ++ [.destroyInsert log.length]) := by
        intro t ht
        have hresult := ht.destroyed (c := .destroyResult t₂.length) rfl rfl rfl fun _ => rfl
        exact hresult.destroyed rfl rfl rfl fun _ => rfl
      rw [ends_bind]
      refine ends_resultError (fun error _ => ?_) (fun bytes _ => hdestroy _ hlook)
      exact (say_keeps hlook (by rintro _ ⟨⟩; rfl)).seq fun _ t ht => hdestroy t ht

theorem main_keeps : Machine.Ends (main env) [] (fun _ => Keeping [] false) Kept := by
  have hstart : Keeping [] false [] := rfl
  refine (readRequest_keeps hstart).seq fun x t₀ h₀ => ?_
  refine (connect_keeps h₀).seq fun _ t₁ h₁ => ?_
  have hsession : Machine.Ends (runSession env x) t₁ (fun _ => Keeping [] true) Kept := by
    refine (openSession_keeps x h₁).seq fun status t₂ h₂ => ?_
    refine ends_ite (fun _ => ?_) fun _ => h₂
    exact ends_ite (fun _ => runSelect_keeps x.query x.params h₂) fun _ =>
      ends_ite (fun _ => runInsert_keeps x.query x.params h₂) fun _ =>
        ends_ite (fun _ => runQuery_keeps x.query x.params h₂) fun _ => fail_keeps h₂
  refine hsession.seq fun status t₃ h₃ => ?_
  have hclosed : Keeping [] false (t₃ ++ [.closeConn]) := h₃.concat rfl
  exact hclosed.idle rfl rfl fun _ => rfl

end

/-! ### The whole run -/

/-- A call that the ledger allows is about an object that lives. -/
theorem alive_of_ledger {log pre post : List Call} {c : Call} {o : ℕ} (h : (ledger log).isSome)
    (hlog : log = pre ++ c :: post) (huses : c.uses = some o) : Alive o pre := by
  obtain ⟨l, hl⟩ := Option.isSome_iff_exists.mp h
  have hsplit : ledger (pre ++ [c] ++ post) = some l := by
    rw [List.append_assoc]
    exact hlog ▸ hl
  unfold ledger at hsplit
  rw [List.foldlM_append] at hsplit
  obtain ⟨l', hl', -⟩ := Option.bind_eq_some_iff.mp hsplit
  obtain ⟨l₀, hl₀, hnext⟩ := Option.bind_eq_some_iff.mp ((ledger_concat pre c).symm.trans hl')
  exact ((ledger_spec hl₀).2.1 o).mp ((Ledger.next_names hnext).2.1 o huses)

/-- **The helper keeps to what libchdb allows.**  Whatever libchdb and the system answer, every
    call is one the ledger allows, so it is about an object that has been returned and not been
    destroyed; and when `main` returns, every object has been. -/
theorem main_objects (env : Env) :
    (ledger (calls env)).isSome ∧
      (∀ pre c post, calls env = pre ++ c :: post → ∀ o, c.uses = some o → Alive o pre) ∧
      ∀ status, returned env = some status → ∀ o, ¬ Alive o (calls env) := by
  have hends : Machine.Ends (main env) [] _ Kept := main_keeps
  have hledger : (ledger (calls env)).isSome := by
    unfold calls
    cases hrun : main env [] with
    | ok status log => exact (hends.ok hrun).kept (e := .cut)
    | error stop log => exact hends.error hrun
  refine ⟨hledger, fun pre c post hlog o huses => alive_of_ledger hledger hlog huses, ?_⟩
  intro status hreturned o halive
  unfold returned at hreturned
  unfold calls at halive
  cases hrun : main env [] with
  | ok status' log =>
    rw [hrun] at halive
    have hname := ((ledger_spec (hends.ok hrun)).2.1 o).mpr halive
    cases hname
  | error stop log =>
    rw [hrun] at hreturned
    cases hreturned

/-- A run that returns, after as many calls. -/
theorem main_objects_oneChunk : returned oneChunk = some 0 ∧ (calls oneChunk).length = 28 ∧
    ∀ o, ¬ Alive o (calls oneChunk) :=
  have hzero : returned oneChunk = some 0 := by decide +kernel
  ⟨hzero, by decide +kernel, (main_objects oneChunk).2.2 0 hzero⟩

end PgChdb.Program
