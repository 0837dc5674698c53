import TruthSeeker.SmtToken.Caller
import TruthSeeker.SmtToken.Committed

namespace TruthSeeker.SmtToken

open Sdk SparseMerkle

/-- Two accounts of one address have the same leaf: an empty account has no allowances. -/
def SameLeaf (a c : Account) : Prop :=
  a.balance=c.balance ∧ (a.balance=0 ∨ a.allowances=c.allowances)

section
variable {Proof : Type} (S : Scheme H256 H256 H256 Proof) {sha256 : Bytes → H256}
  (T : AccountSMT sha256)

/-- The prover supplied what the commitment holds, as far as the action depends on it.
A transfer pins the accounts but for their addresses and for the allowances of an empty
recipient; an approval pins the owner but for the address; `transferFrom` pins nothing. -/
def Faithful (step : SmtTokenStep Proof) : SmtTokenAction → Prop
  | .transfer sender recipient amount =>
      if sender=recipient then amount≤(T.committed sender).balance
      else amount=0 ∨ ∃ a b,step.accounts[sender]?=some a ∧ step.accounts[recipient]?=some b ∧
        a.address=sender ∧ b.address=recipient ∧ (b.balance=0 → b.allowances=∅)
  | .transferFrom owner spender recipient amount =>
      ∃ changed changes,supplied step (.transferFrom owner spender recipient amount)=
          some changed ∧
        expected T (.transferFrom owner spender recipient amount)=some changes ∧
        List.Forall₂ SameLeaf changed changes ∧
        S.computeRoot step.proof
          (changed.map (fun a => (a.getKey sha256,T.tree.leaf (a.getKey sha256))))=
          .ok (S.root T.tree.leaf)
  | .approve owner spender amount =>
      ∃ a,step.accounts[owner]?=some a ∧ (a.address=owner ∨
        a.allowances[spender]?=some amount ∧ (T.committed owner).balance≠0 ∧
        (T.committed owner).allowances[spender]?=some amount)

end

section
variable {Proof : Type} {S : Scheme H256 H256 H256 Proof} {sha256 : Bytes → H256}
  {T : AccountSMT sha256} {step : SmtTokenStep Proof} {action : SmtTokenAction}
  {commitment fresh : StateCommitment}

/-- The accounts that an accepted action leaves are its outcome on the supplied ones. -/
theorem supplied_of_accepts {changed : List Account}
    (h : Accepts S sha256 commitment step changed action) :
    supplied step action=some changed := by
  cases action with
  | transfer sender recipient amount =>
    obtain ⟨a,b,ha,hb,_,hle,hlt,rfl⟩ := h
    simp only [supplied,SmtTokenAction.outcome,ha,hb,Option.bind_eq_bind,Option.bind_some]
    rw [if_pos ⟨hle,hlt⟩]
  | transferFrom owner spender recipient amount =>
    obtain ⟨a,b,ha,hb,_,_,hal,hle,hlt,rfl⟩ := h
    simp only [supplied,SmtTokenAction.outcome,ha,hb,Option.bind_eq_bind,Option.bind_some]
    rw [if_pos ⟨hal,hle,hlt⟩]
  | approve owner spender amount =>
    obtain ⟨a,ha,_,hb,rfl⟩ := h
    simp only [supplied,SmtTokenAction.outcome,ha,Option.bind_eq_bind,Option.bind_some]
    rw [if_pos hb]

/-- Accounts checked against the commitment have the leaves of the tree. -/
theorem opens_of_verified {accounts : List Account} (crypto : SoundCrypto S T step action)
    (hc : commitment=(S.root T.tree.leaf).toList)
    (hv : Verified S sha256 commitment step.proof accounts) :
    ∃ leaves,Account.leaves sha256 accounts=.ok leaves ∧
      S.computeRoot step.proof leaves=.ok (S.root T.tree.leaf) ∧
      ∀ p∈leaves,T.tree.leaf p.1=p.2 := by
  obtain ⟨leaves,root,hl,hr,hs⟩ := hv
  have he : root=S.root T.tree.leaf := by
    apply ByteVec.toList_injective
    rw [← hr,hc]
  rw [he] at hs
  exact ⟨leaves,hl,hs,crypto.soundBefore.opens leaves hs⟩

/-- Recomputing the root of unchanged accounts keeps the commitment. -/
theorem recomputed_unchanged {accounts : List Account} {leaves : List (H256 × H256)}
    (hl : Account.leaves sha256 accounts=.ok leaves)
    (hs : S.computeRoot step.proof leaves=.ok (S.root T.tree.leaf))
    (hf : Recomputed S sha256 step.proof accounts fresh) :
    fresh=(S.root T.tree.leaf).toList := by
  obtain ⟨ls,root,hls,hr,rfl⟩ := hf
  rw [hl] at hls
  obtain rfl := Except.ok.inj hls
  rw [hs] at hr
  rw [← Except.ok.inj hr]

/-- Where the committed accounts do not change, the action keeps the commitment. -/
theorem applies_unchanged {changes : List Account} {leaves : List (H256 × H256)}
    (he : expected T action=some changes) (hl : Account.leaves sha256 changes=.ok leaves)
    (hs : ∀ p∈leaves,T.tree.leaf p.1=p.2) :
    Applies S T action (S.root T.tree.leaf).toList := by
  refine ⟨changes,leaves,he,hl,?_⟩
  rw [setLeaves_self _ _ hs]

/-- A transfer to oneself keeps the commitment. -/
theorem self_transfer_applies_iff {name : Identity} {amount : U128} {changed : List Account}
    (crypto : SoundCrypto S T step (.transfer name name amount))
    (hc : commitment=(S.root T.tree.leaf).toList)
    (hacc : Accepts S sha256 commitment step changed (.transfer name name amount))
    (hf : Recomputed S sha256 step.proof changed fresh) :
    Applies S T (.transfer name name amount) fresh ↔ amount≤(T.committed name).balance := by
  obtain ⟨a,b,ha,hb,hv,hle,_,rfl⟩ := hacc
  rw [if_pos rfl] at hv
  rw [moved_self] at hf
  obtain ⟨leaves,hl,hs,_⟩ := opens_of_verified crypto hc hv
  have hfresh := recomputed_unchanged hl hs hf
  have he : expected T (.transfer name name amount)=
      if amount≤(T.committed name).balance then some [T.committed name] else none := by
    simp [expected,SmtTokenAction.outcome,moved_self]
  constructor
  · intro h
    obtain ⟨changes,ls,hx,_,_⟩ := h
    by_contra hn
    rw [he,if_neg hn] at hx
    cases hx
  · intro h
    rw [if_pos h] at he
    rw [hfresh]
    refine applies_unchanged he (Account.leaves_single.mpr ⟨_,T.committed_toH256 name,rfl⟩) ?_
    intro p hp
    obtain rfl := List.mem_singleton.mp hp
    rw [T.committed_getKey]

theorem expected_transfer {sender recipient : Identity} {amount : U128}
    {changes : List Account} (hsr : sender≠recipient) :
    expected T (.transfer sender recipient amount)=some changes ↔
      amount≤(T.committed sender).balance ∧
      (T.committed recipient).balance.toNat+amount.toNat<2^128 ∧
      changes=[(T.committed sender).debit amount,(T.committed recipient).credit amount] := by
  simp only [expected,SmtTokenAction.outcome,moved_of_ne hsr,Option.bind_eq_bind,
    Option.bind_some]
  split_ifs with h
  · simp only [Option.some.injEq,h.1,h.2 hsr,true_and,eq_comm]
  · constructor
    · intro hx
      cases hx
    · intro hx
      exact absurd ⟨hx.1,fun _ => hx.2.1⟩ h

private theorem debit_ne {a : Account} {amount : U128} (h : amount≠0) : a.debit amount≠a := by
  intro he
  have hb : a.balance-amount=a.balance := congrArg Account.balance he
  bv_omega

private theorem credit_funded {a : Account} {amount : U128} (h : amount≠0)
    (hlt : a.balance.toNat+amount.toNat<2^128) : (a.credit amount).balance≠0 := by
  intro hb
  change a.balance+amount=0 at hb
  bv_omega

private theorem credit_ne {a : Account} {amount : U128} (h : amount≠0) : a.credit amount≠a := by
  intro he
  have hb : a.balance+amount=a.balance := congrArg Account.balance he
  bv_omega

private theorem debit_ne_credit {a : Account} {amount : U128} (h : amount≠0)
    (hle : amount≤a.balance) (hlt : a.balance.toNat+amount.toNat<2^128) :
    a.debit amount≠a.credit amount := by
  intro he
  have hb : a.balance-amount=a.balance+amount := congrArg Account.balance he
  bv_omega

/-- A transfer between two accounts applies to the committed ones where it moves nothing,
or where the supplied accounts have the named addresses and no invented allowances. -/
theorem transfer_applies_iff {sender recipient : Identity} {amount : U128}
    {changed : List Account} (hsr : sender≠recipient)
    (crypto : SoundCrypto S T step (.transfer sender recipient amount))
    (hc : commitment=(S.root T.tree.leaf).toList)
    (hacc : Accepts S sha256 commitment step changed (.transfer sender recipient amount))
    (hf : Recomputed S sha256 step.proof changed fresh) :
    Applies S T (.transfer sender recipient amount) fresh ↔
      Faithful S T step (.transfer sender recipient amount) := by
  have hsup := supplied_of_accepts hacc
  obtain ⟨a,b,ha,hb,hv,hle,hlt,rfl⟩ := hacc
  replace hlt := hlt hsr
  rw [if_neg hsr] at hv
  rw [moved_of_ne hsr] at hf hsup
  have hsn : sender∈(SmtTokenAction.transfer sender recipient amount).names := by
    simp [SmtTokenAction.names]
  have hrn : recipient∈(SmtTokenAction.transfer sender recipient amount).names := by
    simp [SmtTokenAction.names]
  have hks : Account.computeKey sha256 sender≠Account.computeKey sha256 recipient :=
    fun h => hsr (crypto.names_injective hsn hrn h)
  have hapl : InPlay T step (.transfer sender recipient amount) a :=
    Or.inl ⟨sender,hsn,Or.inl ha⟩
  have hbpl : InPlay T step (.transfer sender recipient amount) b :=
    Or.inl ⟨recipient,hrn,Or.inl hb⟩
  have hadp : InPlay T step (.transfer sender recipient amount) (a.debit amount) :=
    Or.inr (Or.inl ⟨_,hsup,by simp⟩)
  have hbcp : InPlay T step (.transfer sender recipient amount) (b.credit amount) :=
    Or.inr (Or.inl ⟨_,hsup,by simp⟩)
  obtain ⟨leaves,hl,hs,hopen⟩ := opens_of_verified crypto hc hv
  obtain ⟨la,lb,hla,hlb,rfl⟩ := Account.leaves_pair.mp hl
  have hta : T.tree.leaf (a.getKey sha256)=la := hopen (a.getKey sha256,la) (by simp)
  have htb : T.tree.leaf (b.getKey sha256)=lb := hopen (b.getKey sha256,lb) (by simp)
  simp only [Faithful,if_neg hsr]
  by_cases hz : amount=0
  · subst hz
    simp only [Account.debit_zero,Account.credit_zero] at hf
    have hfresh := recomputed_unchanged hl hs hf
    refine ⟨fun _ => Or.inl rfl,fun _ => ?_⟩
    rw [hfresh]
    have he : expected T (.transfer sender recipient 0)=
        some [(T.committed sender).debit 0,(T.committed recipient).credit 0] :=
      (expected_transfer hsr).mpr
        ⟨by bv_omega,by simpa using (T.committed recipient).balance.isLt,rfl⟩
    simp only [Account.debit_zero,Account.credit_zero] at he
    refine applies_unchanged he (Account.leaves_pair.mpr
      ⟨_,_,T.committed_toH256 sender,T.committed_toH256 recipient,rfl⟩) ?_
    intro p hp
    rcases List.mem_cons.mp hp with rfl | hp
    · rw [T.committed_getKey]
    · obtain rfl := List.mem_singleton.mp hp
      rw [T.committed_getKey]
  · have hab : a.balance≠0 := by
      intro h
      rw [h] at hle
      exact hz (by bv_omega)
    obtain ⟨ls,root,hls,hroot,rfl⟩ := hf
    obtain ⟨la',lb',hla',hlb',rfl⟩ := Account.leaves_pair.mp hls
    constructor
    · intro h
      right
      refine ⟨a,b,ha,hb,?_⟩
      obtain ⟨changes,ms,he,hms,hfresh⟩ := h
      obtain ⟨_,hcr,rfl⟩ := (expected_transfer hsr).mp he
      have hexp : InPlay T step (.transfer sender recipient amount)
          ((T.committed recipient).credit amount) := Or.inr (Or.inr ⟨_,he,by simp⟩)
      have hsound := crypto.soundAfter _ _ he hms
      obtain ⟨m,n,hm,hn,rfl⟩ := Account.leaves_pair.mp hms
      have hskey : ((T.committed sender).debit amount).getKey sha256=
          Account.computeKey sha256 sender := T.committed_getKey sender
      have hrkey : ((T.committed recipient).credit amount).getKey sha256=
          Account.computeKey sha256 recipient := T.committed_getKey recipient
      rw [hskey,hrkey] at hsound hfresh
      rw [ByteVec.toList_injective hfresh] at hroot
      have hafter := hsound.opens _ hroot
      have hkeys : ((([(Account.computeKey sha256 sender,m),
          (Account.computeKey sha256 recipient,n)] : List (H256 × H256)).map Prod.fst)).Nodup := by
        simp [hks]
      have hen := setLeaves_of_mem T.tree.leaf _ hkeys (Account.computeKey sha256 recipient) n
        (by simp)
      have hea := hafter ((a.debit amount).getKey sha256,la') (by simp)
      have heb := hafter ((b.credit amount).getKey sha256,lb') (by simp)
      change setLeaves T.tree.leaf _ (a.getKey sha256)=la' at hea
      change setLeaves T.tree.leaf _ (b.getKey sha256)=lb' at heb
      -- both leaves changed, so both keys are among the named ones
      have hna : a.getKey sha256=Account.computeKey sha256 sender ∨
          a.getKey sha256=Account.computeKey sha256 recipient := by
        by_contra hn
        rw [setLeaves_of_not_mem _ _ _ (by simpa [not_or] using hn),hta] at hea
        rw [← hea] at hla'
        exact debit_ne hz (crypto.funded_injective hapl hadp hab hla hla').symm
      have hnb : b.getKey sha256=Account.computeKey sha256 sender ∨
          b.getKey sha256=Account.computeKey sha256 recipient := by
        by_contra hn
        rw [setLeaves_of_not_mem _ _ _ (by simpa [not_or] using hn),htb] at heb
        rw [← heb] at hlb'
        exact credit_ne hz (crypto.funded_injective hbcp hbpl (credit_funded hz hlt) hlb' hlb)
      have hdistinct : a.getKey sha256≠b.getKey sha256 := by
        intro hk
        rw [hk,htb] at hta
        rw [← hta] at hla
        obtain rfl := crypto.funded_injective hapl hbpl hab hla hlb
        rw [heb] at hea
        rw [hea] at hlb'
        exact debit_ne_credit hz hle hlt
          (crypto.funded_injective hbcp hadp (credit_funded hz hlt) hlb' hla').symm
      rcases hna with hna | hna
      · rcases hnb with hnb | hnb
        · exact absurd (hna.trans hnb.symm) hdistinct
        · refine ⟨crypto.key_injective hapl hsn hna,crypto.key_injective hbpl hrn hnb,?_⟩
          intro hbz
          rw [hnb,hen] at heb
          rw [← heb] at hlb'
          have hcc := crypto.funded_injective hbcp hexp (credit_funded hz hlt) hlb' hn
          have hcz : T.committed recipient=⟨recipient,0,∅⟩ :=
            SoundCrypto.committed_of_empty hbz (by rw [hlb,← htb,hnb])
          have hall := congrArg Account.allowances hcc
          change b.allowances=(T.committed recipient).allowances at hall
          rw [hall,hcz]
      · rcases hnb with hnb | hnb
        · have hca := crypto.committed_of_funded hapl hrn hab (by rw [hla,← hta,hna])
          rw [hca] at hn hcr hexp
          rw [hna,hen] at hea
          rw [← hea] at hla'
          exact absurd (crypto.funded_injective hexp hadp (credit_funded hz hcr) hn hla').symm
            (debit_ne_credit hz hle hcr)
        · exact absurd (hna.trans hnb.symm) hdistinct
    · intro h
      rcases h with h | ⟨a',b',ha',hb',has,hbr,hall⟩
      · exact absurd h hz
      · obtain rfl : a=a' := by simpa [ha] using ha'
        obtain rfl : b=b' := by simpa [hb] using hb'
        have hka : a.getKey sha256=Account.computeKey sha256 sender := by rw [← has]; rfl
        have hkb : b.getKey sha256=Account.computeKey sha256 recipient := by rw [← hbr]; rfl
        have hca := crypto.committed_of_funded hapl hsn hab (by rw [hla,← hta,hka])
        have hcb : T.committed recipient=b := by
          by_cases hbz : b.balance=0
          · rw [SoundCrypto.committed_of_empty hbz (by rw [hlb,← htb,hkb])]
            cases b
            simp_all
          · exact crypto.committed_of_funded hbpl hrn hbz (by rw [hlb,← htb,hkb])
        refine ⟨[a.debit amount,b.credit amount],_,?_,hls,?_⟩
        · rw [expected_transfer hsr,hca,hcb]
          exact ⟨hle,hlt,rfl⟩
        · have hr := crypto.soundBefore.recomputes _ [((a.debit amount).getKey sha256,la'),
            ((b.credit amount).getKey sha256,lb')] ?_ hs rfl
          · rw [hroot] at hr
            rw [Except.ok.inj hr]
          · simp [hka,hkb,hks]

theorem expected_approve {owner spender : Identity} {amount : U128} {changes : List Account} :
    expected T (.approve owner spender amount)=some changes ↔
      (T.committed owner).balance≠0 ∧
      changes=[(T.committed owner).updateAllowances spender amount] := by
  simp only [expected,SmtTokenAction.outcome,Option.bind_eq_bind,Option.bind_some]
  split_ifs with h
  · simp only [Option.some.injEq,h,not_false_eq_true,ne_eq,true_and,eq_comm]
  · constructor
    · intro hx
      cases hx
    · intro hx
      exact absurd hx.1 h

/-- An approval applies to the committed owner where the supplied owner has the named
address, or where it changes nothing. -/
theorem approve_applies_iff {owner spender : Identity} {amount : U128}
    {changed : List Account} (crypto : SoundCrypto S T step (.approve owner spender amount))
    (hc : commitment=(S.root T.tree.leaf).toList)
    (hacc : Accepts S sha256 commitment step changed (.approve owner spender amount))
    (hf : Recomputed S sha256 step.proof changed fresh) :
    Applies S T (.approve owner spender amount) fresh ↔
      Faithful S T step (.approve owner spender amount) := by
  have hsup := supplied_of_accepts hacc
  obtain ⟨a,ha,hv,hab,rfl⟩ := hacc
  have hon : owner∈(SmtTokenAction.approve owner spender amount).names := by
    simp [SmtTokenAction.names]
  have hapl : InPlay T step (.approve owner spender amount) a := Or.inl ⟨owner,hon,Or.inl ha⟩
  have hcpl : InPlay T step (.approve owner spender amount) (T.committed owner) :=
    Or.inl ⟨owner,hon,Or.inr rfl⟩
  have hnpl : InPlay T step (.approve owner spender amount)
      (a.updateAllowances spender amount) := Or.inr (Or.inl ⟨_,hsup,by simp⟩)
  obtain ⟨leaves,hl,hs,hopen⟩ := opens_of_verified crypto hc hv
  obtain ⟨la,hla,rfl⟩ := Account.leaves_single.mp hl
  have hta : T.tree.leaf (a.getKey sha256)=la := hopen (a.getKey sha256,la) (by simp)
  obtain ⟨ls,root,hls,hroot,rfl⟩ := hf
  obtain ⟨lu,hlu,rfl⟩ := Account.leaves_single.mp hls
  change S.computeRoot step.proof [(a.getKey sha256,lu)]=_ at hroot
  have hrec : S.computeRoot step.proof [(a.getKey sha256,lu)]=
      .ok (S.root (Function.update T.tree.leaf (a.getKey sha256) lu)) :=
    crypto.soundBefore.recomputes_single hs
  have hfresh : root=S.root (Function.update T.tree.leaf (a.getKey sha256) lu) := by
    rw [hrec] at hroot
    exact (Except.ok.inj hroot).symm
  constructor
  · intro h
    refine ⟨a,ha,?_⟩
    obtain ⟨changes,ms,he,hms,hx⟩ := h
    have hsound := crypto.soundAfter _ _ he hms
    have hbind := crypto.binding _ _ he hms
    obtain ⟨hcb,rfl⟩ := expected_approve.mp he
    have hepl : InPlay T step (.approve owner spender amount)
        ((T.committed owner).updateAllowances spender amount) :=
      Or.inr (Or.inr ⟨_,he,by simp⟩)
    obtain ⟨m,hm,rfl⟩ := Account.leaves_single.mp hms
    have hkey : ((T.committed owner).updateAllowances spender amount).getKey sha256=
        Account.computeKey sha256 owner := T.committed_getKey owner
    rw [hkey] at hsound hbind hx
    by_cases hk : a.getKey sha256=Account.computeKey sha256 owner
    · exact Or.inl (crypto.key_injective hapl hon hk)
    · right
      have hx' := ByteVec.toList_injective hx
      rw [hx'] at hroot
      have hopened := hsound.opens_single hroot
      rw [setLeaves_single,Function.update_of_ne hk,hta] at hopened
      rw [← hopened] at hlu hfresh
      have hsame := crypto.funded_injective hapl hnpl hab hla hlu
      have htree := hbind (by rw [← hx',hfresh,← hta,Function.update_eq_self])
      have hcl : T.tree.leaf (Account.computeKey sha256 owner)=m := by
        rw [htree,setLeaves_single,Function.update_self]
      have hcm := T.committed_toH256 owner
      rw [hcl] at hcm
      have hcsame := crypto.funded_injective hcpl hepl hcb hcm hm
      refine ⟨?_,hcb,?_⟩
      · rw [congrArg Account.allowances hsame]
        exact Std.ExtTreeMap.getElem?_insert_self
      · rw [congrArg Account.allowances hcsame]
        exact Std.ExtTreeMap.getElem?_insert_self
  · intro h
    obtain ⟨a',ha',h⟩ := h
    obtain rfl : a=a' := by simpa [ha] using ha'
    rcases h with haddr | ⟨hal,hcb,hcal⟩
    · have hk : a.getKey sha256=Account.computeKey sha256 owner := by rw [← haddr]; rfl
      have hca := crypto.committed_of_funded hapl hon hab (by rw [hla,← hta,hk])
      refine ⟨[a.updateAllowances spender amount],_,?_,hls,?_⟩
      · rw [expected_approve,hca]
        exact ⟨hab,rfl⟩
      · rw [hfresh]
        rfl
    · have hself : ∀ c : Account,c.allowances[spender]?=some amount →
          c.updateAllowances spender amount=c := by
        intro c hcs
        have hm : c.allowances.insert spender amount=c.allowances := by
          apply Std.ExtTreeMap.ext_getElem?
          intro k
          rw [Std.ExtTreeMap.getElem?_insert]
          split_ifs with hk
          · rw [← Std.LawfulEqOrd.eq_of_compare hk,hcs]
          · rfl
        cases c
        simp only [Account.updateAllowances] at hm ⊢
        rw [hm]
      rw [hself a hal,hla] at hlu
      rw [← Except.ok.inj hlu,← hta,Function.update_eq_self] at hfresh
      rw [hfresh]
      have he := (expected_approve (T := T)).mpr ⟨hcb,congrArg (fun c => [c])
        (hself _ hcal).symm⟩
      refine applies_unchanged he
        (Account.leaves_single.mpr ⟨_,T.committed_toH256 owner,rfl⟩) ?_
      intro p hp
      obtain rfl := List.mem_singleton.mp hp
      rw [T.committed_getKey]

theorem expected_transferFrom {owner spender recipient : Identity} {amount : U128}
    {changes : List Account}
    (h : expected T (.transferFrom owner spender recipient amount)=some changes) :
    changes=moved owner recipient ((T.committed owner).updateAllowances spender
      ((T.committed owner).allowance spender-amount)) (T.committed recipient) amount := by
  simp only [expected,SmtTokenAction.outcome,Option.bind_eq_bind,Option.bind_some] at h
  split_ifs at h
  exact (Option.some.inj h).symm

theorem leaves_keys {accounts : List Account} {leaves : List (H256 × H256)}
    (h : Account.leaves sha256 accounts=.ok leaves) :
    leaves.map Prod.fst=accounts.map (Account.getKey sha256) := by
  induction accounts generalizing leaves with
  | nil =>
    rw [Account.leaves_nil.mp h]
    rfl
  | cons a as ih =>
    obtain ⟨l,rest,_,hr,rfl⟩ := Account.leaves_cons.mp h
    rw [List.map_cons,List.map_cons,ih hr]

theorem keys_of_addresses {xs ys : List Account}
    (h : List.Forall₂ (fun x y => x.address=y.address) xs ys) :
    xs.map (Account.getKey sha256)=ys.map (Account.getKey sha256) := by
  induction h with
  | nil => rfl
  | cons hxy _ ih =>
    rw [List.map_cons,List.map_cons,ih]
    unfold Account.getKey
    rw [hxy]

/-- Accounts of one address with one leaf agree, up to the allowances of an empty account. -/
theorem sameLeaf_of_leaf {a c : Account} {l : H256} (crypto : SoundCrypto S T step action)
    (ha : InPlay T step action a) (hc : InPlay T step action c)
    (hla : a.toH256 sha256=.ok l) (hlc : c.toH256 sha256=.ok l) : SameLeaf a c := by
  rcases crypto.leaf_injective ha hc hla hlc with rfl | ⟨hab,hcb⟩
  · exact ⟨rfl,Or.inr rfl⟩
  · exact ⟨by rw [hab,hcb],Or.inl hab⟩

theorem toH256_of_sameLeaf {a c : Account} (hd : a.address=c.address) (h : SameLeaf a c) :
    a.toH256 sha256=c.toH256 sha256 := by
  obtain ⟨hb,hz | hall⟩ := h
  · rw [Account.toH256_empty hz,Account.toH256_empty (hb ▸ hz)]
  · have he : a=c := by
      cases a
      cases c
      simp_all
    rw [he]

/-- The listed accounts agree with the expected ones exactly where their leaves do. -/
theorem leaves_eq_iff {changed changes : List Account} {ls : List (H256 × H256)}
    (crypto : SoundCrypto S T step action)
    (hpc : ∀ a∈changed,InPlay T step action a) (hpe : ∀ a∈changes,InPlay T step action a)
    (hd : List.Forall₂ (fun a c => a.address=c.address) changed changes)
    (hl : Account.leaves sha256 changed=.ok ls) :
    Account.leaves sha256 changes=.ok ls ↔ List.Forall₂ SameLeaf changed changes := by
  induction hd generalizing ls with
  | nil =>
    rw [Account.leaves_nil] at hl ⊢
    exact ⟨fun _ => List.Forall₂.nil,fun _ => hl⟩
  | @cons a c as cs hac _ ih =>
    obtain ⟨l,rest,hla,hrest,rfl⟩ := Account.leaves_cons.mp hl
    have ih' := ih (fun x hx => hpc x (List.mem_cons_of_mem _ hx))
      (fun x hx => hpe x (List.mem_cons_of_mem _ hx)) hrest
    have hkey : a.getKey sha256=c.getKey sha256 := by
      unfold Account.getKey
      rw [hac]
    rw [Account.leaves_cons,List.forall₂_cons]
    constructor
    · intro h
      obtain ⟨m,rest',hm,hr',he⟩ := h
      obtain ⟨hpair,rfl⟩ := List.cons.inj he
      obtain ⟨_,rfl⟩ := Prod.mk.inj hpair
      exact ⟨sameLeaf_of_leaf crypto (hpc a (by simp)) (hpe c (by simp)) hla hm,ih'.mp hr'⟩
    · intro h
      refine ⟨l,rest,?_,ih'.mpr h.2,by rw [hkey]⟩
      rw [← toH256_of_sameLeaf hac h.1,hla]

/-- `transferFrom` applies to the committed accounts exactly where the proof opens the
tree at the named accounts and the supplied accounts lead to their leaves. -/
theorem transferFrom_applies_iff {owner spender recipient : Identity} {amount : U128}
    {changed : List Account}
    (crypto : SoundCrypto S T step (.transferFrom owner spender recipient amount))
    (hacc : Accepts S sha256 commitment step changed
      (.transferFrom owner spender recipient amount))
    (hf : Recomputed S sha256 step.proof changed fresh) :
    Applies S T (.transferFrom owner spender recipient amount) fresh ↔
      Faithful S T step (.transferFrom owner spender recipient amount) := by
  have hsup := supplied_of_accepts hacc
  obtain ⟨a,b,ha,hb,hao,hbr,_,_,_,hchanged⟩ := hacc
  have hon : owner∈(SmtTokenAction.transferFrom owner spender recipient amount).names := by
    simp [SmtTokenAction.names]
  have hrn : recipient∈(SmtTokenAction.transferFrom owner spender recipient amount).names := by
    simp [SmtTokenAction.names]
  have hpc : ∀ x∈changed,InPlay T step (.transferFrom owner spender recipient amount) x :=
    fun x hx => Or.inr (Or.inl ⟨changed,hsup,hx⟩)
  obtain ⟨ls,root,hls,hroot,rfl⟩ := hf
  have hkeys := leaves_keys hls
  have hnodup : (changed.map (Account.getKey sha256)).Nodup := by
    rw [hchanged]
    by_cases hor : owner=recipient
    · subst hor
      simp [moved_self]
    · rw [moved_of_ne hor]
      have hk : Account.computeKey sha256 owner≠Account.computeKey sha256 recipient :=
        fun h => hor (crypto.names_injective hon hrn h)
      have hka : Account.getKey sha256 ((a.updateAllowances spender
          (a.allowance spender-amount)).debit amount)=Account.computeKey sha256 owner := by
        rw [← hao]
        rfl
      have hkb : Account.getKey sha256 (b.credit amount)=
          Account.computeKey sha256 recipient := by
        rw [← hbr]
        rfl
      simp [hka,hkb,hk]
  -- both outcomes list the owner, then another recipient
  have haddr : ∀ changes,expected T (.transferFrom owner spender recipient amount)=
      some changes → List.Forall₂ (fun x y => x.address=y.address) changed changes := by
    intro changes he
    rw [hchanged,expected_transferFrom he]
    have hco := crypto.committed_address hon
    have hcr := crypto.committed_address hrn
    by_cases hor : owner=recipient
    · subst hor
      rw [moved_self,moved_self]
      exact List.Forall₂.cons (hao.trans hco.symm) List.Forall₂.nil
    · rw [moved_of_ne hor,moved_of_ne hor]
      exact List.Forall₂.cons (hao.trans hco.symm)
        (List.Forall₂.cons (hbr.trans hcr.symm) List.Forall₂.nil)
  constructor
  · intro h
    obtain ⟨changes,ms,he,hms,hx⟩ := h
    have hpe : ∀ x∈changes,InPlay T step (.transferFrom owner spender recipient amount) x :=
      fun x hx => Or.inr (Or.inr ⟨changes,he,hx⟩)
    have hsound := crypto.soundAfter _ _ he hms
    rw [ByteVec.toList_injective hx] at hroot
    have hmk : ls.map Prod.fst=ms.map Prod.fst := by
      rw [hkeys,leaves_keys hms]
      exact keys_of_addresses (haddr changes he)
    have hmd : (ms.map Prod.fst).Nodup := by rw [← hmk,hkeys]; exact hnodup
    have heq := eq_of_opens_changed hmd hmk (hsound.opens ls hroot)
    rw [← heq] at hms
    refine ⟨changed,changes,hsup,he,
      (leaves_eq_iff crypto hpc hpe (haddr changes he) hls).mp hms,?_⟩
    have hlsd : (ls.map Prod.fst).Nodup := by rw [hkeys]; exact hnodup
    have hback := hsound.recomputes ls ((ls.map Prod.fst).map (fun k => (k,T.tree.leaf k)))
      hlsd hroot (by rw [List.map_map]; exact List.map_id _)
    rw [← heq,setLeaves_restore _ _ hlsd,hkeys,List.map_map] at hback
    exact hback
  · intro h
    obtain ⟨changed',changes,hs',he,hsame,hopen⟩ := h
    obtain rfl : changed=changed' := by simpa [hsup] using hs'
    have hpe : ∀ x∈changes,InPlay T step (.transferFrom owner spender recipient amount) x :=
      fun x hx => Or.inr (Or.inr ⟨changes,he,hx⟩)
    have hms := (leaves_eq_iff crypto hpc hpe (haddr changes he) hls).mpr hsame
    have hfst : (changed.map (fun x => (x.getKey sha256,T.tree.leaf (x.getKey sha256)))).map
        Prod.fst=changed.map (Account.getKey sha256) := by
      rw [List.map_map]
      rfl
    have hr := crypto.soundBefore.recomputes _ ls (by rw [hfst]; exact hnodup) hopen
      (by rw [hkeys,hfst])
    rw [hroot] at hr
    exact ⟨changes,ls,he,hms,by rw [Except.ok.inj hr]⟩

/-- A successful execution moves the commitment to the tree in which only the named
accounts changed, from their committed values, exactly when the prover was faithful. -/
theorem execute_token_applies_iff {self self' : SmtTokenContract Proof} {calldata : Calldata}
    {ctx : ExecutionContext} {out : RunOk}
    (hp : parseCalldata SmtTokenAction calldata=.ok (action,ctx))
    (hs : self.steps.getLast?=some step)
    (hc : self.commitment=(S.root T.tree.leaf).toList)
    (crypto : SoundCrypto S T step action)
    (he : self.execute S sha256 calldata=(.ok out,self')) :
    Applies S T action self'.commitment ↔ Faithful S T step action := by
  obtain ⟨step',output,fresh,hs',hr,_,rfl⟩ := (execute_eq_ok hp).mp he
  obtain rfl : step=step' := by simpa [hs] using hs'
  obtain ⟨changed,hacc,hf⟩ := runAction_eq_ok.mp ⟨output,hr⟩
  cases action with
  | transfer sender recipient amount =>
    by_cases hsr : sender=recipient
    · subst hsr
      simp only [Faithful,if_true]
      exact self_transfer_applies_iff crypto hc hacc hf
    · exact transfer_applies_iff hsr crypto hc hacc hf
  | transferFrom owner spender recipient amount =>
    exact transferFrom_applies_iff crypto hacc hf
  | approve owner spender amount => exact approve_applies_iff crypto hc hacc hf

end

namespace OneAccount

theorem alice_leaf : (Account.toH256 sha256 alice).toOption=some leaf := by decide +kernel

/-- The tree that holds `alice` only. -/
def accounts : AccountSMT sha256 where
  tree :=
    { values := (∅ : Std.ExtTreeMap H256 Account).insert key alice
      stored := by
        intro k a h
        rw [Std.ExtTreeMap.getElem?_insert] at h
        split_ifs at h
        · obtain rfl := Option.some.inj h
          exact ⟨leaf,alice_leaf,by decide +kernel⟩
        · simp at h }
  keyed := by
    intro k a h
    rw [Std.ExtTreeMap.getElem?_insert] at h
    split_ifs at h with hk
    · obtain rfl := Option.some.inj h
      rw [← Std.LawfulEqOrd.eq_of_compare hk]
      decide +kernel
    · simp at h

/-- A transfer of the funds of `alice` to herself, on her allowance to `mallory`. -/
def withdrawal : SmtTokenAction :=
  .transferFrom "alice@wallet" "mallory@wallet" "alice@wallet" 5

/-- What the two executions evaluate to. -/
structure Evaluated : Prop where
  committed : accounts.committed "alice@wallet"=alice
  stored : accounts.tree.leaf key=leaf
  commitment : (contract alice).commitment=(tree.root accounts.tree.leaf).toList ∧
    (contract forged).commitment=(tree.root accounts.tree.leaf).toList
  withdraws : (contract forged).execute tree sha256 (calldata withdrawal)=
    (.ok (utf8 "Transferred 5 to alice@wallet",ctx,[]),⟨mintedRoot.toList,[]⟩)
  approved : expected accounts approval=some [approved]
  refused : expected accounts withdrawal=none
  written : Account.leaves sha256 [OneAccount.approved]=.ok [(key,approvedLeaf)]
  distinct : root≠approvedRoot ∧ mintedRoot≠root ∧ mintedRoot≠approvedRoot ∧
    ByteVec.zero 32≠root ∧ ByteVec.zero 32≠approvedRoot
  roots : rootOf leaf=root ∧ rootOf approvedLeaf=approvedRoot
  supplied : ∀ p ∈ [(alice,approval),(forged,withdrawal)],
    ∀ b ∈ (supplied (step p.1) p.2).getD [],b∈[alice,OneAccount.approved,forged,minted]
  digests : (digests.map Prod.snd).Nodup
  named : utf8 "alice@wallet"∈OneAccount.digests.map Prod.fst
  digested : ∀ a ∈ [alice,OneAccount.approved,forged,minted],
    utf8 a.address∈OneAccount.digests.map Prod.fst ∧
      (Borsh.ser a).getD []∈OneAccount.digests.map Prod.fst ∧
      sha256 ((Borsh.ser a).getD [])≠ByteVec.zero 32

theorem evaluated : Evaluated := by
  constructor <;> decide +kernel

theorem rootOf_injective {l m : H256} (hm : m=leaf ∨ m=approvedLeaf)
    (h : rootOf l=rootOf m) : m=l := by
  obtain ⟨ra,mr,ma,zr,za⟩ := evaluated.distinct
  obtain ⟨hl,ha⟩ := evaluated.roots
  rcases hm with rfl | rfl
  · rw [hl,rootOf] at h
    split_ifs at h with h1 h2 h3
    · exact h1.symm
    · exact absurd h.symm ra
    · exact absurd h mr
    · exact absurd h zr
  · rw [ha,rootOf] at h
    split_ifs at h with h1 h2 h3
    · exact absurd h ra
    · exact h2.symm
    · exact absurd h ma
    · exact absurd h za

theorem names_alice {account : Account} {action : SmtTokenAction}
    (hx : (account,action)=(alice,approval) ∨ (account,action)=(forged,withdrawal)) :
    ∀ name ∈ action.names,name="alice@wallet" := by
  rcases hx with hx | hx <;> obtain ⟨rfl,rfl⟩ := Prod.mk.inj hx <;> decide

/-- The accounts of both executions are among those whose digests are known. -/
theorem inPlay_mem {account : Account} {action : SmtTokenAction} {a : Account}
    (hx : (account,action)=(alice,approval) ∨ (account,action)=(forged,withdrawal))
    (h : InPlay accounts (step account) action a) : a∈[alice,approved,forged,minted] := by
  have hstep : ∀ b : Account,(step b).accounts["alice@wallet"]?=some b := by
    intro b
    exact Std.ExtTreeMap.getElem?_insert_self
  have hacc : account∈[alice,approved,forged,minted] := by
    rcases hx with hx | hx <;> obtain ⟨rfl,rfl⟩ := Prod.mk.inj hx <;> simp
  rcases h with ⟨name,hn,h⟩ | ⟨changed,hs,hm⟩ | ⟨changes,he,hm⟩
  · obtain rfl := names_alice hx name hn
    rcases h with h | rfl
    · rw [hstep] at h
      obtain rfl := Option.some.inj h
      exact hacc
    · rw [evaluated.committed]
      exact List.mem_cons_self
  · exact evaluated.supplied (account,action) (by simpa using hx) a (by rw [hs]; exact hm)
  · rcases hx with hx | hx <;> obtain ⟨rfl,rfl⟩ := Prod.mk.inj hx
    · rw [evaluated.approved] at he
      obtain rfl := Option.some.inj he
      obtain rfl := List.mem_singleton.mp hm
      simp
    · rw [evaluated.refused] at he
      cases he

theorem soundCrypto {account : Account} {action : SmtTokenAction}
    (hx : (account,action)=(alice,approval) ∨ (account,action)=(forged,withdrawal)) :
    SoundCrypto tree accounts (step account) action where
  collisionFree := by
    refine (ByteVec.lookup_injOn digests evaluated.digests).mono ?_
    intro bs h
    rcases h with ⟨name,hn,rfl⟩ | ⟨a,ha,rfl | hs⟩
    · rw [names_alice hx name hn]
      exact evaluated.named
    · exact (evaluated.digested a (inPlay_mem hx ha)).1
    · have hm := (evaluated.digested a (inPlay_mem hx ha)).2.1
      rwa [hs] at hm
  leafNonzero := by
    intro a bs ha hs
    have hm := (evaluated.digested a (inPlay_mem hx ha)).2.2
    rwa [hs] at hm
  soundBefore := oneKey_sound (fun l h => by
    rw [evaluated.stored] at h ⊢
    exact rootOf_injective (Or.inl rfl) h)
  soundAfter := by
    intro changes leaves he hl
    rcases hx with hx | hx <;> obtain ⟨rfl,rfl⟩ := Prod.mk.inj hx
    · rw [evaluated.approved] at he
      obtain rfl := Option.some.inj he
      rw [evaluated.written] at hl
      obtain rfl := Except.ok.inj hl
      refine oneKey_sound (fun l h => ?_)
      rw [setLeaves_single,Function.update_self] at h ⊢
      exact rootOf_injective (Or.inr rfl) h
    · rw [evaluated.refused] at he
      cases he
  binding := by
    intro changes leaves he hl h
    rcases hx with hx | hx <;> obtain ⟨rfl,rfl⟩ := Prod.mk.inj hx
    · rw [evaluated.approved] at he
      obtain rfl := Option.some.inj he
      rw [evaluated.written] at hl
      obtain rfl := Except.ok.inj hl
      change rootOf (accounts.tree.leaf key)=
        rootOf (setLeaves accounts.tree.leaf [(key,approvedLeaf)] key) at h
      rw [evaluated.stored,setLeaves_single,Function.update_self,evaluated.roots.1,
        evaluated.roots.2] at h
      exact absurd h evaluated.distinct.1
    · rw [evaluated.refused] at he
      cases he

end OneAccount

open OneAccount in
/-- Without any check of the supplied accounts, `transferFrom` writes an invented balance. -/
theorem not_execute_token_applies :
    SoundCrypto OneAccount.tree accounts (step forged) withdrawal ∧
    (contract forged).commitment=(OneAccount.tree.root accounts.tree.leaf).toList ∧
    (contract forged).execute OneAccount.tree OneAccount.sha256 (calldata withdrawal)=
      (.ok (utf8 "Transferred 5 to alice@wallet",ctx,[]),⟨mintedRoot.toList,[]⟩) ∧
    ¬Applies OneAccount.tree accounts withdrawal mintedRoot.toList := by
  have crypto := soundCrypto (Or.inr rfl)
  refine ⟨crypto,evaluated.commitment.2,evaluated.withdraws,?_⟩
  intro applies
  obtain ⟨changes,leaves,he,_,_⟩ := applies
  rw [evaluated.refused] at he
  cases he

open OneAccount in
/-- An approval on the committed account. -/
theorem execute_token_applies_iff_approval :
    Applies OneAccount.tree accounts approval approvedRoot.toList ↔
      Faithful OneAccount.tree accounts (step alice) approval := by
  have run := execute_approval
  have hs : (contract alice).steps.getLast?=some (step alice) := rfl
  have crypto := soundCrypto (Or.inl rfl)
  have h := execute_token_applies_iff run.1 hs evaluated.commitment.1 crypto run.2
  exact h

end TruthSeeker.SmtToken
