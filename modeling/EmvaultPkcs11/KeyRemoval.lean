import EmvaultPkcs11.CeremonyReload
import EmvaultPkcs11.PolicyStore

/-! Removing a key (`delete_key`): on a token that serves every call exactly the objects filed under the
two key labels are gone. -/

open Effect

namespace EmvaultPkcs11

variable {K D : Type}

/-- The template public keys are removed by. -/
def pubQuery (label : String) : List Attribute := [.objectClass .publicKey, .label (pubLabel label)]

/-- What a removal leaves. -/
structure Machine.Forgets (label : String) (m m' : Machine K) : Prop where
  objects : m'.objects = m.objects.filter fun entry =>
    !entry.2.matches (keyQuery label) && !entry.2.matches (pubQuery label)
  nextHandle : m'.nextHandle = m.nextHandle
  calls : m.calls ≤ m'.calls

/-- One round destroys what its search finds. -/
theorem wp_deleteMatching (hsm : Hsm K D) (hfree : hsm.FaultFree) (label : String)
    (kind : String × ObjectClass) (m : Machine K) :
    wp (Program.run hsm.exec (deleteMatching label kind : TokenProgram K D _ _))
      (fun _ m' => m'.objects = m.objects.filter (fun entry =>
          !entry.2.matches [.objectClass kind.2, .label s!"{PREFIX}.{label}.{kind.1}"]) ∧
        m'.nextHandle = m.nextHandle ∧ m.calls ≤ m'.calls)
      (fun _ _ => False) m := by
  simp only [deleteMatching, Program.wp_run_bind, Session.wp_findObjects]
  refine ⟨fun e he => by simp [hfree m.calls] at he, fun _ => ?_⟩
  rw [Machine.search_eq]
  refine wp_mono (wp_destroyAll hsm _ _ m.tick rfl) (fun _ m' h => ?_) (fun e m' h => ?_)
  · obtain ⟨_, hobjects, hnext, hcalls⟩ := h
    exact ⟨hobjects, hnext, by rw [hcalls, Machine.calls_tick]; omega⟩
  · have hlt := h.1
    rw [hsm.servedFrom_of_faultFree hfree] at hlt
    exact absurd hlt (Nat.lt_irrefl _)

theorem wp_deleteKey (hsm : Hsm K D) (hfree : hsm.FaultFree) (label : String) (m : Machine K) :
    wp (Program.run hsm.exec (deleteKey label : TokenProgram K D _ _))
      (fun _ m' => Machine.Forgets label m m') (fun _ _ => False) m := by
  simp only [deleteKey, Program.wp_run_bind]
  refine wp_mono (wp_deleteMatching hsm hfree label (PRIV_SUFFIX, .privateKey) m) (fun _ m₁ h₁ => ?_)
    (fun _ _ h => h)
  refine wp_mono (wp_deleteMatching hsm hfree label (PUB_SUFFIX, .publicKey) m₁) (fun _ m₂ h₂ => ?_)
    (fun _ _ h => h)
  obtain ⟨hobjects₁, hnext₁, hcalls₁⟩ := h₁
  obtain ⟨hobjects₂, hnext₂, hcalls₂⟩ := h₂
  refine ⟨?_, hnext₂.trans hnext₁, hcalls₁.trans hcalls₂⟩
  rw [hobjects₂, hobjects₁, List.filter_filter]
  refine List.filter_congr fun entry _ => ?_
  rw [Bool.and_comm]
  rfl

end EmvaultPkcs11
