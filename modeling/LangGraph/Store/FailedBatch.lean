import LangGraph.Store.SqliteBatch

namespace LangGraph

open Collections

namespace Store

namespace SqliteStore

variable {V I T M Vec Q : Type}

def RowWrite.IsRefresh : RowWrite V T M → Prop
  | .refresh _ => True
  | _ => False

def Statement.Reading : Statement V T M Vec → Prop
  | .select | .refresh _ _ => True
  | _ => False

def Statement.Putting : Statement V T M Vec → Prop
  | .delete _ _ | .insert _ | .insertVectors _ => True
  | _ => False

-- What raises between two statements.
def BatchFailure.Between : BatchFailure → Prop
  | .statement _ | .commit => False
  | _ => True

section Steps

variable (db : Engine V I T M Vec Q) (Allowed : Statement V T M Vec → Prop)

inductive Steps (s : Session V T M Vec) : Session V T M Vec → Prop
  | refl : Steps s s
  | execute {s' : Session V T M Vec} (h : Steps s s') (logged : Bool) (st : Statement V T M Vec)
      (hst : Allowed st) : Steps s (execute db logged st s')
  | check {s' : Session V T M Vec} (h : Steps s s') (e : BatchFailure)
      (he : e.Between) : Steps s (check db e s')

variable {db Allowed}

theorem Steps.trans {s s' s'' : Session V T M Vec} (h : Steps db Allowed s s')
    (h' : Steps db Allowed s' s'') : Steps db Allowed s s'' := by
  induction h' with
  | refl => exact h
  | execute _ logged st hst ih => exact ih.execute logged st hst
  | check _ e he ih => exact ih.check e he

theorem Steps.foldl {α : Type} {f : Session V T M Vec → α → Session V T M Vec} (l : List α)
    (hf : ∀ s, ∀ a ∈ l, Steps db Allowed s (f s a)) (s : Session V T M Vec) :
    Steps db Allowed s (l.foldl f s) := by
  induction l generalizing s with
  | nil => exact .refl
  | cons a l ih =>
    exact (hf s a List.mem_cons_self).trans
      (ih (fun s x hx => hf s x (List.mem_cons_of_mem _ hx)) (f s a))

end Steps

section Phases

variable (db : Engine V I T M Vec Q)

theorem steps_batchGetOps (gets : List (Namespace × String × Bool)) (s : Session V T M Vec) :
    Steps db Statement.Reading s (batchGetOps db gets s) := by
  refine Steps.foldl _ (fun s g _ => ?_) s
  rw [getGroup]
  refine ((Steps.execute ?_ false .select trivial).check (.load _) trivial)
  split
  · exact Steps.refl.execute false _ trivial
  · exact .refl

theorem steps_searchOne (op : Q × Bool) (s : Session V T M Vec) :
    Steps db Statement.Reading s (searchOne db op s) := by
  have hselect : Steps db Statement.Reading s (execute db false .select s) :=
    Steps.refl.execute false .select trivial
  rw [searchOne]
  refine Steps.check ?_ (.load s.executed) trivial
  split
  · exact hselect.trans (Steps.foldl _ (fun s _ _ => Steps.refl.execute true _ trivial) _)
  · exact hselect

theorem steps_batchSearchOps (searches : List (Q × Bool)) (s : Session V T M Vec) :
    Steps db Statement.Reading s (batchSearchOps db searches s) := by
  have hprepare : Steps db Statement.Reading s (check db .prepareSearch s) :=
    Steps.refl.check .prepareSearch trivial
  rw [batchSearchOps]
  refine Steps.trans ?_ (Steps.foldl searches (fun s op _ => steps_searchOne db op s) _)
  split
  · exact hprepare.check .embedQueries trivial
  · exact hprepare

theorem steps_batchListNamespacesOps (n : Nat) (s : Session V T M Vec) :
    Steps db Statement.Reading s (batchListNamespacesOps db n s) :=
  Steps.foldl _ (fun _ _ _ => Steps.refl.execute false .select trivial) s

theorem putting_putStatements (puts : Dict (Namespace × String) (Put V I M)) :
    ∀ st ∈ putStatements db puts, st.Putting := by
  intro st hst
  rw [putStatements, List.mem_append, List.mem_append] at hst
  rcases hst with (hst | hst) | hst
  · obtain ⟨g, -, rfl⟩ := List.mem_map.mp hst
    trivial
  · split at hst
    · cases hst
    · cases List.mem_singleton.mp hst
      trivial
  · split at hst
    · cases hst
    · cases List.mem_singleton.mp hst
      trivial

theorem steps_batchPutOps (puts : Dict (Namespace × String) (Put V I M))
    (s : Session V T M Vec) : Steps db Statement.Putting s (batchPutOps db puts s) := by
  have hprepare : Steps db Statement.Putting s (check db .preparePut s) :=
    Steps.refl.check .preparePut trivial
  rw [batchPutOps]
  refine Steps.trans ?_ (Steps.foldl _
    (fun s st hst => Steps.refl.execute false st (putting_putStatements db puts st hst)) _)
  split
  · exact hprepare
  · exact hprepare.check .embedDocuments trivial

theorem steps_reads (ops : List (SqlOp V I M Q)) (content : Content V T M Vec) :
    Steps db Statement.Reading (begun content) (reads db ops content) := by
  have hgets : Steps db Statement.Reading (begun content)
      (if (getsOf ops).isEmpty then begun content
        else batchGetOps db (getsOf ops) (begun content)) := by
    split
    · exact .refl
    · exact steps_batchGetOps db _ _
  rw [reads]
  refine Steps.trans ?_ (steps_batchListNamespacesOps db (listsOf ops) _)
  split
  · exact hgets
  · exact hgets.trans (steps_batchSearchOps db _ _)

theorem steps_body (ops : List (SqlOp V I M Q)) (content : Content V T M Vec) :
    Steps db Statement.Putting (reads db ops content) (body db ops content) := by
  rw [body]
  split
  · exact .refl
  · exact steps_batchPutOps db _ _

end Phases

section Invariant

variable (db : Engine V I T M Vec Q)

structure Sound (content : Content V T M Vec) (s : Session V T M Vec) : Prop where
  saved : s.saved = content
  clean : s.first = none → s.error = none ∧ s.active = true
  raised : ∀ f ∈ s.first, f.logged = false →
    s.error = some f.error ∧ (s.active = true ↔ f.undo = .statement)
  swallowed : ∀ f ∈ s.first, f.logged = true →
    s.error ≠ some f.error ∧ ∃ n < s.executed, f.error = .statement n
  written : (∀ f ∈ s.first, f.logged = false ∧ f.undo = .statement) →
    s.content = content.after db s.log s.vectorLog
  inside : ∀ f ∈ s.first, f.error ≠ .commit

variable {db} {content : Content V T M Vec} {s : Session V T M Vec}

theorem Content.after_append (c : Content V T M Vec) (log log' : List (RowKey × RowWrite V T M))
    (vectorLog vectorLog' : List (VectorKey × VectorRow Vec T)) :
    c.after db (log ++ log') (vectorLog ++ vectorLog') =
      (c.after db log vectorLog).after db log' vectorLog' := by
  rw [Content.after, Content.after, Content.after, List.foldl_append, List.foldl_append]

theorem Sound.execute (h : Sound db content s) (logged : Bool) (st : Statement V T M Vec) :
    Sound db content (execute db logged st s) := by
  rw [SqliteStore.execute]
  split
  · exact h
  · rename_i herror
    have hnone : s.error = none := by simpa using herror
    cases hfails : db.fails s.executed with
    | none =>
      refine ⟨h.saved, h.clean, h.raised, ?_, ?_, h.inside⟩
      · intro f hf hlogged
        obtain ⟨hne, n, hn, he⟩ := h.swallowed f hf hlogged
        exact ⟨hne, n, Nat.lt_succ_of_lt hn, he⟩
      · intro hall
        refine Eq.trans ?_ (Content.after_append content _ _ _ _).symm
        rw [← h.written hall]
    | some undo =>
      cases hfirst : s.first with
      | none =>
        obtain ⟨-, hactive⟩ := h.clean hfirst
        refine ⟨h.saved, fun hno => (by simp at hno), ?_, ?_, ?_, ?_⟩
        · intro f hf hlogged
          simp only [Option.none_or, Option.mem_some_iff] at hf
          subst hf
          have hl : logged = false := hlogged
          cases undo <;> simp [hl, hactive]
        · intro f hf hlogged
          simp only [Option.none_or, Option.mem_some_iff] at hf
          subst hf
          have hl : logged = true := hlogged
          exact ⟨by simp [hl], s.executed, Nat.lt_succ_self _, rfl⟩
        · intro hall
          have hkind := hall ⟨.statement s.executed, logged, undo⟩ (by simp)
          have hundo : undo = .statement := hkind.2
          have hno : ∀ f ∈ s.first, f.logged = false ∧ f.undo = .statement := by
            simp [hfirst]
          simp only [hundo, reduceCtorEq, false_and, if_false]
          exact h.written hno
        · intro f hf
          simp only [Option.none_or, Option.mem_some_iff] at hf
          subst hf
          simp
      | some f =>
        have hlogged : f.logged = true := by
          cases hl : f.logged with
          | true => rfl
          | false =>
            have hraised := (h.raised f hfirst hl).1
            rw [hnone] at hraised
            cases hraised
        obtain ⟨-, n, hn, he⟩ := h.swallowed f hfirst hlogged
        refine ⟨h.saved, fun hno => (by simp at hno), ?_, ?_, ?_, ?_⟩
        · intro g hg hgl
          simp only [Option.some_or, Option.mem_some_iff] at hg
          subst hg
          rw [hlogged] at hgl
          cases hgl
        · intro g hg _
          simp only [Option.some_or, Option.mem_some_iff] at hg
          subst hg
          refine ⟨?_, n, Nat.lt_succ_of_lt hn, he⟩
          rw [he]
          cases logged with
          | true => simp
          | false =>
            intro heq
            have hsame : s.executed = n := by simpa using heq
            omega
        · intro hall
          have hkind := (hall f (by simp)).1
          rw [hlogged] at hkind
          cases hkind
        · intro g hg
          simp only [Option.some_or, Option.mem_some_iff] at hg
          exact hg ▸ h.inside f hfirst

theorem Sound.check (h : Sound db content s) {e : BatchFailure} (he : e.Between) :
    Sound db content (check db e s) := by
  rw [SqliteStore.check]
  split
  · exact h
  · rename_i herror
    have hnone : s.error = none := by simpa using herror
    split
    · cases hfirst : s.first with
      | none =>
        obtain ⟨-, hactive⟩ := h.clean hfirst
        refine ⟨h.saved, fun hno => (by simp at hno), ?_, ?_, ?_, ?_⟩
        · intro f hf _
          simp only [Option.none_or, Option.mem_some_iff] at hf
          subst hf
          simp [hactive]
        · intro f hf hlogged
          simp only [Option.none_or, Option.mem_some_iff] at hf
          subst hf
          cases hlogged
        · intro _
          exact h.written (by simp [hfirst])
        · intro f hf
          simp only [Option.none_or, Option.mem_some_iff] at hf
          subst hf
          rintro rfl
          exact he
      | some f =>
        have hlogged : f.logged = true := by
          cases hl : f.logged with
          | true => rfl
          | false =>
            have hraised := (h.raised f hfirst hl).1
            rw [hnone] at hraised
            cases hraised
        obtain ⟨-, n, hn, hf⟩ := h.swallowed f hfirst hlogged
        refine ⟨h.saved, fun hno => (by simp at hno), ?_, ?_, ?_, ?_⟩
        · intro g hg hgl
          simp only [Option.some_or, Option.mem_some_iff] at hg
          subst hg
          rw [hlogged] at hgl
          cases hgl
        · intro g hg _
          simp only [Option.some_or, Option.mem_some_iff] at hg
          subst hg
          refine ⟨?_, n, hn, hf⟩
          rw [hf]
          intro heq
          cases heq
          exact he
        · intro hall
          have hkind := (hall f (by simp)).1
          rw [hlogged] at hkind
          cases hkind
        · intro g hg
          simp only [Option.some_or, Option.mem_some_iff] at hg
          exact hg ▸ h.inside f hfirst
    · exact h

theorem Sound.steps {Allowed : Statement V T M Vec → Prop} {s' : Session V T M Vec}
    (h : Sound db content s) (hsteps : Steps db Allowed s s') : Sound db content s' := by
  induction hsteps with
  | refl => exact h
  | execute _ logged st _ ih => exact ih.execute logged st
  | check _ e he ih => exact ih.check he

theorem sound_begun (content : Content V T M Vec) : Sound db content (begun content) where
  saved := rfl
  clean := fun _ => ⟨rfl, rfl⟩
  raised := by
    intro f hf
    cases hf
  swallowed := by
    intro f hf
    cases hf
  written := fun _ => rfl
  inside := by
    intro f hf
    cases hf

theorem sound_body (ops : List (SqlOp V I M Q)) (content : Content V T M Vec) :
    Sound db content (body db ops content) :=
  ((sound_begun content).steps (steps_reads db ops content)).steps (steps_body db ops content)

end Invariant

section Logs

variable (db : Engine V I T M Vec Q)

def Ordered (log : List (RowKey × RowWrite V T M)) : Prop :=
  log.Pairwise (fun a b => b.2.IsRefresh → a.2.IsRefresh)

theorem refreshes_writes {st : Statement V T M Vec} (hst : st.Reading) (now : T) :
    ∀ w ∈ st.writes now, w.2.IsRefresh := by
  intro w hw
  cases st with
  | select => cases hw
  | refresh ns keys =>
    obtain ⟨k, -, rfl⟩ := List.mem_map.mp hw
    trivial
  | delete ns keys => exact hst.elim
  | insert values => exact hst.elim
  | insertVectors values => exact hst.elim

theorem puts_writes {st : Statement V T M Vec} (hst : st.Putting) (now : T) :
    ∀ w ∈ st.writes now, ¬ w.2.IsRefresh := by
  intro w hw
  cases st with
  | select => cases hw
  | refresh ns keys => exact hst.elim
  | delete ns keys =>
    obtain ⟨k, -, rfl⟩ := List.mem_map.mp hw
    exact id
  | insert values =>
    obtain ⟨v, -, rfl⟩ := List.mem_map.mp hw
    exact id
  | insertVectors values => cases hw

theorem log_execute (logged : Bool) (st : Statement V T M Vec) (s : Session V T M Vec) :
    (execute db logged st s).log = s.log ∨
      ∃ now, (execute db logged st s).log = s.log ++ st.writes now := by
  rw [execute]
  split
  · exact Or.inl rfl
  · split
    · exact Or.inr ⟨_, rfl⟩
    · exact Or.inl rfl

theorem log_check (e : BatchFailure) (s : Session V T M Vec) : (check db e s).log = s.log := by
  rw [check]
  split
  · rfl
  · split <;> rfl

variable {db}

theorem refreshes_of_reading {s s' : Session V T M Vec} (h : Steps db Statement.Reading s s')
    (hs : ∀ w ∈ s.log, w.2.IsRefresh) : ∀ w ∈ s'.log, w.2.IsRefresh := by
  induction h with
  | refl => exact hs
  | @execute s' h logged st hst ih =>
    rcases log_execute db logged st s' with hlog | ⟨now, hlog⟩
    · rw [hlog]
      exact ih
    · rw [hlog, List.forall_mem_append]
      exact ⟨ih, refreshes_writes hst now⟩
  | check _ e _ ih =>
    rw [log_check]
    exact ih

theorem ordered_of_putting {s s' : Session V T M Vec} (h : Steps db Statement.Putting s s')
    (hs : Ordered s.log) : Ordered s'.log := by
  induction h with
  | refl => exact hs
  | @execute s' h logged st hst ih =>
    rcases log_execute db logged st s' with hlog | ⟨now, hlog⟩
    · rw [hlog]
      exact ih
    · rw [hlog, Ordered, List.pairwise_append]
      have hnew := puts_writes hst now
      refine ⟨ih, ?_, fun a _ b hb hrefresh => absurd hrefresh (hnew b hb)⟩
      exact List.pairwise_iff_forall_sublist.mpr (fun {a b} hab hrefresh =>
        absurd hrefresh (hnew b (hab.subset (by simp))))
  | check _ e _ ih =>
    rw [log_check]
    exact ih

theorem ordered_body (ops : List (SqlOp V I M Q)) (content : Content V T M Vec) :
    Ordered (body db ops content).log := by
  refine ordered_of_putting (steps_body db ops content) ?_
  have hreads := refreshes_of_reading (steps_reads db ops content) (by intro w hw; cases hw)
  exact List.pairwise_iff_forall_sublist.mpr (fun {a b} hab _ => hreads a (hab.subset (by simp)))

variable (db)

theorem refresh_refresh (held : Option (Row V T M)) (earlier now : T) :
    RowWrite.apply db (RowWrite.apply db held (.refresh earlier)) (.refresh now) =
      RowWrite.apply db held (.refresh now) := by
  cases held with
  | none => rfl
  | some row =>
    simp only [RowWrite.apply, Option.map_some]
    cases httl : row.ttlMinutes with
    | none => simp [httl]
    | some ttl => simp

theorem lastOf_concat {κ α : Type} [DecidableEq κ] (k : κ) (log : List (κ × α)) (w : κ × α) :
    lastOf k (log ++ [w]) = if w.1 = k then some w.2 else lastOf k log := by
  rw [lastOf, List.reverse_append, List.reverse_singleton, List.singleton_append,
    Dict.firstOf_cons]
  rfl

theorem foldl_applyRow (rows : RowKey → Option (Row V T M)) (k : RowKey)
    {log : List (RowKey × RowWrite V T M)} (h : Ordered log) :
    log.foldl (applyRow db) rows k = match lastOf k log with
      | none => rows k
      | some w => w.apply db (rows k) := by
  induction log using List.reverseRecOn with
  | nil => rfl
  | append_singleton log w ih =>
    obtain ⟨hlog, -, hlast⟩ := List.pairwise_append.mp h
    have hprev := ih hlog
    rw [List.foldl_append, List.foldl_cons, List.foldl_nil, lastOf_concat, applyRow]
    by_cases hk : w.1 = k
    · rw [if_pos hk, hk, Function.update_self]
      cases hw : w.2 with
      | delete => rfl
      | insert row => rfl
      | refresh now =>
        have hall : ∀ a ∈ log, a.2.IsRefresh := fun a ha =>
          hlast a ha w (List.mem_singleton_self w) (by rw [hw]; trivial)
        rw [hprev]
        cases hl : lastOf k log with
        | none => rfl
        | some w' =>
          have hrefresh := hall _ (Dict.mem_of_lastOf hl)
          cases w' with
          | refresh earlier => exact refresh_refresh db (rows k) earlier now
          | delete => exact hrefresh.elim
          | insert row => exact hrefresh.elim
    · rw [if_neg hk, Function.update_of_ne (Ne.symm hk)]
      exact hprev

theorem foldl_applyVector (vectors : VectorKey → Option (VectorRow Vec T)) (k : VectorKey)
    (log : List (VectorKey × VectorRow Vec T)) :
    log.foldl applyVector vectors k = (lastOf k log).or (vectors k) := by
  induction log using List.reverseRecOn with
  | nil => rfl
  | append_singleton log w ih =>
    rw [List.foldl_append, List.foldl_cons, List.foldl_nil, lastOf_concat, applyVector]
    by_cases hk : w.1 = k
    · rw [if_pos hk, hk, Function.update_self]
      rfl
    · rw [if_neg hk, Function.update_of_ne (Ne.symm hk)]
      exact ih

end Logs

section Traceless

variable (db : Engine V I T M Vec Q)

def AlreadyStored (held : Option (Row V T M)) : RowWrite V T M → Prop
  | .refresh now => ∀ row ∈ held, ∀ ttl ∈ row.ttlMinutes,
      row.expiresAt = some (db.refreshedExpiry now ttl)
  | .delete => held = none
  | .insert row => held = some row

-- Whatever the statements before the failure wrote last was stored so before the batch.
def NothingNew (content : Content V T M Vec) (s : Session V T M Vec) : Prop :=
  (∀ k w, lastOf k s.log = some w → AlreadyStored db (content.rows k) w) ∧
  (∀ k v, lastOf k s.vectorLog = some v → content.vectors k = some v)

def Traceless (ops : List (SqlOp V I M Q)) (content : Content V T M Vec) : Prop :=
  db.raises .begin = true ∨
    match (body db ops content).first with
    | none => db.commitFails = some .statement → NothingNew db content (body db ops content)
    | some f => f.logged = false ∧ f.undo = .statement ∧ db.commitFails = none ∧
        NothingNew db content (body db ops content)

def LeavesNoTrace (o : BatchOutcome V T M Vec) (content : Content V T M Vec) : Prop :=
  ∀ e, o.firstFailure = some e → o.raised = some e ∧ o.content = content

theorem apply_eq_iff (held : Option (Row V T M)) (w : RowWrite V T M) :
    w.apply db held = held ↔ AlreadyStored db held w := by
  cases w with
  | delete => exact eq_comm
  | insert row => exact eq_comm
  | refresh now =>
    cases held with
    | none => simp [RowWrite.apply, AlreadyStored]
    | some row =>
      cases httl : row.ttlMinutes with
      | none => simp [RowWrite.apply, AlreadyStored, httl]
      | some ttl =>
        simp only [RowWrite.apply, AlreadyStored, Option.map_some, httl, Option.some.injEq,
          Option.mem_some_iff, forall_eq']
        constructor
        · intro heq
          exact (congrArg Row.expiresAt heq).symm
        · intro heq
          rw [← httl, ← heq]

theorem after_eq_iff (content : Content V T M Vec) {s : Session V T M Vec} (h : Ordered s.log) :
    content.after db s.log s.vectorLog = content ↔ NothingNew db content s := by
  have hsplit : content.after db s.log s.vectorLog = content ↔
      (∀ k, s.log.foldl (applyRow db) content.rows k = content.rows k) ∧
      (∀ k, s.vectorLog.foldl applyVector content.vectors k = content.vectors k) := by
    cases content with
    | mk rows vectors =>
      rw [Content.after, Content.mk.injEq, funext_iff, funext_iff]
  rw [hsplit, NothingNew]
  refine and_congr (forall_congr' (fun k => ?_)) (forall_congr' (fun k => ?_))
  · rw [foldl_applyRow db content.rows k h]
    cases lastOf k s.log with
    | none => simp
    | some w => simpa using apply_eq_iff db (content.rows k) w
  · rw [foldl_applyVector]
    cases lastOf k s.vectorLog with
    | none => simp
    | some v => simp [eq_comm]

theorem leaves_no_trace_iff (ops : List (SqlOp V I M Q)) (content : Content V T M Vec) :
    LeavesNoTrace (batch db ops content) content ↔ Traceless db ops content := by
  have hsound : Sound db content (body db ops content) := sound_body ops content
  have hordered : Ordered (body db ops content).log := ordered_body ops content
  have hafter := after_eq_iff db content hordered
  rw [Traceless, batch]
  by_cases hbegin : db.raises .begin = true
  · rw [if_pos hbegin]
    simp [hbegin, LeavesNoTrace]
  · rw [if_neg hbegin, or_iff_right hbegin]
    generalize body db ops content = s at hsound hafter ⊢
    cases hfirst : s.first with
    | none =>
      obtain ⟨-, hactive⟩ := hsound.clean hfirst
      have hwritten := hsound.written (by simp [hfirst])
      rw [commit, if_pos hactive]
      cases hcommit : db.commitFails with
      | none => simp [LeavesNoTrace, hfirst]
      | some undo =>
        cases undo with
        | transaction => simp [LeavesNoTrace, hfirst, hsound.saved]
        | statement => simp [LeavesNoTrace, hfirst, hwritten, hafter]
    | some f =>
      cases hlogged : f.logged with
      | true =>
        obtain ⟨hne, n, -, hf⟩ := hsound.swallowed f hfirst hlogged
        have hno : ¬ LeavesNoTrace (commit db s) content := by
          intro h
          rw [commit] at h
          split at h
          · cases hcommit : db.commitFails with
            | none =>
              rw [hcommit] at h
              exact hne (h f.error (by simp [hfirst])).1
            | some undo =>
              rw [hcommit] at h
              have hraised : (some BatchFailure.commit) = some f.error := by
                cases undo with
                | statement => exact (h f.error (by simp [hfirst])).1
                | transaction => exact (h f.error (by simp [hfirst])).1
              rw [hf] at hraised
              cases hraised
          · have hraised : (some BatchFailure.commit) = some f.error :=
              (h f.error (by simp [hfirst])).1
            rw [hf] at hraised
            cases hraised
        simp [hno, hlogged]
      | false =>
        obtain ⟨herror, hactive⟩ := hsound.raised f hfirst hlogged
        have hinside := hsound.inside f hfirst
        cases hundo : f.undo with
        | transaction =>
          have hidle : s.active ≠ true := by
            rw [Ne, hactive, hundo]
            simp
          rw [commit, if_neg hidle]
          simp [LeavesNoTrace, hfirst, Ne.symm hinside, hundo]
        | statement =>
          have hwritten := hsound.written (by
            intro g hg
            rw [hfirst, Option.mem_some_iff] at hg
            exact hg ▸ ⟨hlogged, hundo⟩)
          rw [commit, if_pos (hactive.mpr hundo)]
          cases hcommit : db.commitFails with
          | none => simp [LeavesNoTrace, hfirst, herror, hlogged, hundo, hwritten, hafter]
          | some undo =>
            cases undo with
            | statement => simp [LeavesNoTrace, hfirst, Ne.symm hinside]
            | transaction => simp [LeavesNoTrace, hfirst, Ne.symm hinside]

def failingInsert : Engine Nat Unit Nat Nat Unit Unit where
  refreshOnRead := false
  clock n := n
  refreshedExpiry now ttl := now + ttl
  insertedExpiry ttl := ttl
  found _ _ := []
  embedsQuery _ := false
  texts _ _ := []
  embedDocuments _ := []
  fails n := if n = 1 then some .statement else none
  raises _ := false
  commitFails := none

def oneRow : Content Nat Nat Nat Unit :=
  ⟨fun k => if k = ("a", "k") then some ⟨7, 0, 0, none, none⟩ else none, fun _ => none⟩

theorem deleted_although_failed : ¬ LeavesNoTrace
    (batch failingInsert [.put ["a"] "k" none () none, .put ["a"] "j" (some 1) () none] oneRow)
    oneRow := by
  intro h
  have hcontent := (h (.statement 1) rfl).2
  have hrow := congrArg (fun c : Content Nat Nat Nat Unit => (c.rows ("a", "k")).isSome) hcontent
  revert hrow
  decide +kernel

end Traceless

end SqliteStore

end Store

end LangGraph
