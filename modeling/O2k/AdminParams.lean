import O2k.AdminClientSafety
import O2k.HeaderCut

set_option autoImplicit false

namespace O2k.AdminClient
open ByteOrder SocketTransfer MsgBuffer AdminMessage

/-- `kvs[key] = value`, on the pairs of a map. -/
def assign (key value : Bytes) : List (Bytes × Bytes) → List (Bytes × Bytes)
  | [] => [(key, value)]
  | kv :: kvs =>
    if key < kv.1 then (key, value) :: kv :: kvs
    else if kv.1 < key then kv :: assign key value kvs
    else (kv.1, value) :: kvs

theorem mem_assign {key value : Bytes} {kvs : List (Bytes × Bytes)} {kv : Bytes × Bytes}
    (h : kv ∈ assign key value kvs) : kv.1 = key ∨ ∃ kv' ∈ kvs, kv'.1 = kv.1 := by
  induction kvs with
  | nil =>
    obtain rfl := List.mem_singleton.mp h
    exact .inl rfl
  | cons first kvs ih =>
    unfold assign at h
    split at h
    · rcases List.mem_cons.mp h with rfl | h
      · exact .inl rfl
      · exact .inr ⟨kv, h, rfl⟩
    · split at h
      · rcases List.mem_cons.mp h with rfl | h
        · exact .inr ⟨kv, List.mem_cons_self, rfl⟩
        · exact (ih h).imp id fun ⟨kv', hmem, hkey⟩ => ⟨kv', List.mem_cons_of_mem _ hmem, hkey⟩
      · rcases List.mem_cons.mp h with rfl | h
        · exact .inr ⟨first, List.mem_cons_self, rfl⟩
        · exact .inr ⟨kv, List.mem_cons_of_mem _ h, rfl⟩

theorem assign_sorted (key value : Bytes) {kvs : List (Bytes × Bytes)}
    (h : kvs.Pairwise fun p q => p.1 < q.1) :
    (assign key value kvs).Pairwise fun p q => p.1 < q.1 := by
  induction kvs with
  | nil => exact List.pairwise_singleton _ _
  | cons first kvs ih =>
    obtain ⟨hfirst, hrest⟩ := List.pairwise_cons.mp h
    unfold assign
    split
    · rename_i hlt
      refine List.pairwise_cons.mpr ⟨?_, h⟩
      intro kv hkv
      rcases List.mem_cons.mp hkv with rfl | hkv
      · exact hlt
      · exact List.lt_trans hlt (hfirst kv hkv)
    · split
      · rename_i hlt
        refine List.pairwise_cons.mpr ⟨?_, ih hrest⟩
        intro kv hkv
        rcases mem_assign hkv with hkey | ⟨kv', hmem, hkey⟩
        · rwa [hkey]
        · rw [← hkey]
          exact hfirst kv' hmem
      · exact List.pairwise_cons.mpr ⟨hfirst, hrest⟩

theorem assign_perm {key value : Bytes} {kvs : List (Bytes × Bytes)}
    (hnew : ∀ kv ∈ kvs, kv.1 ≠ key) : (assign key value kvs).Perm ((key, value) :: kvs) := by
  induction kvs with
  | nil => exact List.Perm.refl _
  | cons first kvs ih =>
    obtain ⟨hfirst, hrest⟩ := List.forall_mem_cons.mp hnew
    unfold assign
    split
    · exact List.Perm.refl _
    · rename_i hge
      split
      · exact ((ih hrest).cons first).trans (List.Perm.swap _ _ _)
      · rename_i hle
        exact absurd (List.le_antisymm (List.not_lt.mp hge) (List.not_lt.mp hle)) hfirst

def setParam (kvs : StringMap) (key value : Bytes) : StringMap :=
  ⟨assign key value kvs.pairs, assign_sorted key value kvs.sorted⟩

/-- The loop of `main` over the arguments from the one with number `i` on. -/
def paramsLoop : ℕ → StringMap → List Bytes → StringMap
  | _, params, [] => params
  | i, params, arg :: args => paramsLoop (i + 1) (setParam params (decimal i) arg) args

def argParams (args : List Bytes) : StringMap := paramsLoop 1 StringMap.empty args

def numbered (i : ℕ) (args : List Bytes) : List (Bytes × Bytes) :=
  (args.zipIdx i).map fun arg => (decimal arg.2, arg.1)

theorem numbered_cons (i : ℕ) (arg : Bytes) (args : List Bytes) :
    numbered i (arg :: args) = (decimal i, arg) :: numbered (i + 1) args := by
  rw [numbered, List.zipIdx_cons]
  rfl

theorem paramsLoop_perm (i : ℕ) (params : StringMap) (args : List Bytes)
    (hbefore : ∀ kv ∈ params.pairs, ∃ j < i, kv.1 = decimal j) :
    (paramsLoop i params args).pairs.Perm (numbered i args ++ params.pairs) := by
  induction args generalizing i params with
  | nil => exact List.Perm.refl _
  | cons arg args ih =>
    have hnew : ∀ kv ∈ params.pairs, kv.1 ≠ decimal i := by
      intro kv hkv heq
      obtain ⟨j, hj, hkey⟩ := hbefore kv hkv
      have hsame := decimal_inj (hkey.symm.trans heq)
      omega
    have hset : (setParam params (decimal i) arg).pairs.Perm ((decimal i, arg) :: params.pairs) :=
      assign_perm hnew
    have hkeys : ∀ kv ∈ (setParam params (decimal i) arg).pairs, ∃ j < i + 1, kv.1 = decimal j := by
      intro kv hkv
      rcases List.mem_cons.mp (hset.mem_iff.mp hkv) with rfl | hkv
      · exact ⟨i, by omega, rfl⟩
      · obtain ⟨j, hj, hkey⟩ := hbefore kv hkv
        exact ⟨j, by omega, hkey⟩
    rw [numbered_cons, List.cons_append]
    exact (ih (i + 1) _ hkeys).trans ((hset.append_left _).trans List.perm_middle)

theorem argParams_perm (args : List Bytes) : (argParams args).pairs.Perm (numbered 1 args) := by
  have hperm := paramsLoop_perm 1 StringMap.empty args fun kv hkv => by cases hkv
  rwa [StringMap.empty, List.append_nil] at hperm

theorem mem_numbered {i : ℕ} {args : List Bytes} {kv : Bytes × Bytes} (h : kv ∈ numbered i args) :
    ∃ j, i ≤ j ∧ j < i + args.length ∧ kv.1 = decimal j := by
  obtain ⟨arg, harg, rfl⟩ := List.mem_map.mp h
  exact ⟨arg.2, List.le_snd_of_mem_zipIdx harg, List.snd_lt_add_of_mem_zipIdx harg, rfl⟩

theorem numbered_sorted (i : ℕ) (args : List Bytes) (h : i + args.length ≤ 10) :
    (numbered i args).Pairwise fun p q => p.1 < q.1 := by
  have hdigits : ∀ j < 10, ∀ k < 10, j < k → decimal j < decimal k := by decide
  induction args generalizing i with
  | nil => exact .nil
  | cons arg args ih =>
    rw [List.length_cons] at h
    rw [numbered_cons]
    refine List.pairwise_cons.mpr ⟨?_, ih (i + 1) (by omega)⟩
    intro kv hkv
    obtain ⟨j, hi, hj, hkey⟩ := mem_numbered hkv
    rw [hkey]
    exact hdigits i (by omega) j (by omega) (by omega)

theorem numbered_not_sorted (args : List Bytes) (h : 10 ≤ args.length) :
    ¬ (numbered 1 args).Pairwise fun p q => p.1 < q.1 := by
  intro hsorted
  have hlen : (numbered 1 args).length = args.length := by simp [numbered]
  have hlt := List.pairwise_iff_getElem.mp hsorted 8 9 (by omega) (by omega) (by omega)
  have hten : ¬ decimal 9 < decimal 10 := by decide
  simp [numbered, hten] at hlt

theorem argParams_numbered_iff (args : List Bytes) :
    (argParams args).pairs = numbered 1 args ↔ args.length ≤ 9 := by
  constructor
  · intro heq
    by_contra hlong
    exact numbered_not_sorted args (by omega) (heq ▸ (argParams args).sorted)
  · intro h
    refine List.Perm.eq_of_pairwise ?_ (argParams args).sorted (numbered_sorted 1 args (by omega))
      (argParams_perm args)
    intro p q _ _ hlt hgt
    exact absurd (List.lt_trans hlt hgt) (List.lt_irrefl _)

theorem SendCommand_sends (host : Endian) (rt : WireFormat.Runtime) (amb : Ambient) (c : CAdmClient)
    (s : Sock) (cmd : Bytes) (params : StringMap)
    (hret : (c.SendCommand host rt amb s cmd params).outcome = .ret 0) :
    ∃ evs, (c.SendCommand host rt amb s cmd params).sock.log = s.log ++ evs ∧
      bytesOut evs = frame (loginCommand c.m_pwd).serialize ++
        frame (userCommand cmd params).serialize := by
  obtain ⟨evs, hlogin⟩ := Login_logged host rt amb c s
  unfold CAdmClient.SendCommand at hret ⊢
  generalize c.Login host rt amb s = login at hlogin hret ⊢
  by_cases hok : login.outcome = .ret 0
  · simp only [hok, ne_eq, not_true_eq_false, ↓reduceIte] at hret ⊢
    cases hser : SerializeToString (userCommand cmd params).serialize with
    | none => simp [hser] at hret
    | some pkg =>
      obtain rfl := SerializeToString_eq hser
      obtain ⟨evs2, hsent⟩ :=
        SendPacket_logged host CMsgRW.init login.sock (userCommand cmd params).serialize
      simp only [hser] at hret ⊢
      generalize CMsgRW.init.SendPacket host login.sock (userCommand cmd params).serialize = sent
        at hsent hret ⊢
      obtain ⟨rc, w', s'⟩ := sent
      dsimp only at hsent hret ⊢
      by_cases hrc : rc ≤ 0
      · simp [hrc] at hret
      · simp only [hrc, ↓reduceIte]
        refine ⟨evs ++ evs2, by rw [hsent.log, hlogin.log, List.append_assoc], ?_⟩
        rw [bytesOut_append, (hlogin.success hok).1, (hsent.positive (by omega)).1]
  · simp only [hok, ne_eq, not_false_eq_true, ↓reduceIte] at hret

def inOrder (args : List Bytes) : List PairStrStr :=
  (numbered 1 args).map fun kv => { key := kv.1, val := kv.2 }

/-- The command carries each argument under its number, once, with the numbers in the order of
    their texts, which is the order of the arguments just when these are at most nine. -/
theorem params_transmitted (host : Endian) (rt : WireFormat.Runtime) (amb : Ambient)
    (c : CAdmClient) (s : Sock) (cmd : Bytes) (args : List Bytes) :
    (userCommand cmd (argParams args)).params.Perm (inOrder args) ∧
    ((userCommand cmd (argParams args)).params.Pairwise fun p q => p.key < q.key) ∧
    ((userCommand cmd (argParams args)).params = inOrder args ↔ args.length ≤ 9) ∧
    ((c.SendCommand host rt amb s cmd (argParams args)).outcome = .ret 0 →
      ∃ evs, (c.SendCommand host rt amb s cmd (argParams args)).sock.log = s.log ++ evs ∧
        bytesOut evs = frame (loginCommand c.m_pwd).serialize ++
          frame (userCommand cmd (argParams args)).serialize) := by
  have hinj : Function.Injective fun kv : Bytes × Bytes => (⟨kv.1, kv.2⟩ : PairStrStr) := by
    rintro ⟨k, v⟩ ⟨k', v'⟩ heq
    obtain ⟨rfl, rfl⟩ := PairStrStr.mk.inj heq
    rfl
  refine ⟨(argParams_perm args).map _, ?_, ?_, SendCommand_sends host rt amb c s cmd _⟩
  · exact List.pairwise_map.mpr (argParams args).sorted
  · rw [← argParams_numbered_iff]
    exact (List.map_injective_iff.mpr hinj).eq_iff

def tenArgs : List Bytes := (List.range 10).map fun n => ascii "arg" ++ decimal n

theorem tenArgs_reordered :
    ¬ ∀ (cmd : Bytes) (args : List Bytes), (userCommand cmd (argParams args)).params = inOrder args := by
  intro h
  have hargs := h (ascii "set") tenArgs
  have hsecond : ((userCommand (ascii "set") (argParams tenArgs)).params[1]?).map (·.key) =
      some (decimal 10) := by decide +kernel
  rw [hargs] at hsecond
  revert hsecond
  decide +kernel

end O2k.AdminClient
