import Borgos.Mem.Arena
import Borgos.Mem.Kmalloc
import Borgos.Mmu.Blocks

/-! # The kernel's own allocators

The buddy allocator gives fresh blocks in every state it can be in, and `kmalloc` takes its pages from it.
-/
namespace Borgos.Mem
open Borgos.Foundations

/-- What is free after a block has been taken was free before. -/
theorem Taken.covered_sub {s s' : Phys} {L L' : Lists} {z : Zone} {k q : ℕ} (h : Taken s L z k q s' L') (z' : Zone) :
    covered (L'.free z') ⊆ covered (L.free z') := by
  intro f hf
  by_cases e : z' = z
  · rw [e, h.covers] at hf
    rw [e]
    exact hf.1
  · rw [Lists.free_congr (h.elsewhere z' e)] at hf
    exact hf

end Borgos.Mem

namespace Borgos.Mmu
open Borgos.Foundations Borgos.Mem
set_option autoImplicit false

/-- `phys` is reached from `a₀` by calls of the allocator, and the frames `used` are on no free list. -/
def OffLists (a₀ : Arena) (phys : Phys) (used : Set ℕ) : Prop :=
  ∃ held, ArenaRun a₀ ⟨phys, held⟩ ∧ ∀ f ∈ used, ∀ z, f ∉ covered (phys.freeBlocks z)

theorem OffLists.mono {a₀ : Arena} {phys : Phys} {used used' : Set ℕ} (h : OffLists a₀ phys used)
    (hsub : used' ⊆ used) : OffLists a₀ phys used' := by
  obtain ⟨held, hrun, hoff⟩ := h
  exact ⟨held, hrun, fun f hf => hoff f (hsub hf)⟩

section Buddy
variable {a₀ : Arena} {s₀ : Phys} {released : List Block} {L : Lists}

theorem buddy_fresh (h : a₀.Inv s₀ released L) : FreshBlocks (pageAllocPages 0) (OffLists a₀) where
  fresh := by
    intro phys phys' used k f hk hg hrun
    obtain ⟨held, hreach, hoff⟩ := hg
    obtain ⟨L₁, hinv⟩ := ArenaRun.inv h hreach
    obtain ⟨L₂, hblock, hle, ht, hinv'⟩ := hinv.alloc hk hrun
    have hstep : ArenaRun a₀ ⟨phys', phys'.blockAt f :: held⟩ := hreach.tail (ArenaStep.allocPages 0 k f phys' hk hrun)
    have hin : ∀ g ∈ Block.frames ⟨f, k⟩, g ∈ covered (phys.freeBlocks (zoneOfFlags 0)) := by
      intro g hg
      rw [hinv.buddy.freeBlocks_eq]
      exact ht.inside hg
    refine ⟨?_, ?_, phys'.blockAt f :: held, hstep, ?_⟩
    · have hpow : 2 ^ k ≤ 2 ^ allocbuddyMaxorder := Nat.pow_le_pow_right (by decide) hk
      unfold allocbuddyMaxorder at hpow
      unfold maxpgdPfn at hle
      omega
    · rw [Set.disjoint_left]
      intro g hu hgb
      exact hoff g hu _ (hin g hgb)
    · intro g hgu z
      rw [hinv'.buddy.freeBlocks_eq]
      rcases hgu with hgu | hgb
      · intro hc
        apply hoff g hgu z
        rw [hinv.buddy.freeBlocks_eq]
        exact ht.covered_sub z hc
      · have hmem : Block.mk f k ∈ phys'.blockAt f :: held := by
          rw [hblock]
          exact List.mem_cons_self
        exact hinv'.apart _ hmem g hgb z

end Buddy

/-! ## `kmalloc` -/

section Kmalloc
variable {ρ : Type}

/-- A command that leaves the page allocator alone. -/
def KeepsPhys {α : Type} (x : Prog (Slab ρ) α) : Prop := ∀ s a s', x s = .ok a s' → s'.phys = s.phys

theorem KeepsPhys.modify {f : Slab ρ → Slab ρ} (h : ∀ s, (f s).phys = s.phys) : KeepsPhys (Prog.modify f) := by
  intro s a s' hrun
  obtain ⟨-, rfl⟩ := Outcome.ok.inj hrun
  exact h s

theorem KeepsPhys.pure {α : Type} (a : α) : KeepsPhys (pure a : Prog (Slab ρ) α) := by
  intro s b s' hrun
  obtain ⟨-, rfl⟩ := Outcome.ok.inj hrun
  rfl

theorem KeepsPhys.get : KeepsPhys (Prog.get : Prog (Slab ρ) (Slab ρ)) := by
  intro s b s' hrun
  obtain ⟨-, rfl⟩ := Outcome.ok.inj hrun
  rfl

theorem KeepsPhys.panic {α : Type} (m : String) : KeepsPhys (Prog.panic m : Prog (Slab ρ) α) :=
  fun _ _ _ hrun => absurd hrun Prog.panic_ne_ok

theorem KeepsPhys.bind {α β : Type} {x : Prog (Slab ρ) α} {f : α → Prog (Slab ρ) β} (hx : KeepsPhys x)
    (hf : ∀ a, KeepsPhys (f a)) : KeepsPhys (x >>= f) := by
  intro s b s' hrun
  obtain ⟨a, s₁, h₁, h₂⟩ := Prog.bind_ok.mp hrun
  rw [hf a s₁ b s' h₂, hx s a s₁ h₁]

/-- An assignment to headers or descriptors comes first. -/
theorem KeepsPhys.after {β : Type} {f : Slab ρ → Slab ρ} {x : Prog (Slab ρ) β} (hx : KeepsPhys x)
    (h : ∀ s, (f s).phys = s.phys := by exact fun _ => rfl) : KeepsPhys (Prog.modify f >>= fun _ => x) :=
  (KeepsPhys.modify h).bind fun _ => hx

theorem kmallocUnlinkFull_phys (z : Zone) (c page : ℕ) :
    KeepsPhys (kmallocUnlinkFull z c page : Prog (Slab ρ) Unit) := by
  apply KeepsPhys.get.bind
  intro s
  split
  · exact KeepsPhys.after (KeepsPhys.modify fun _ => rfl)
  · exact KeepsPhys.pure ()

theorem kmallocFromPage_phys (z : Zone) (c size flags page : ℕ) :
    KeepsPhys (kmallocFromPage z c size flags page : Prog (Slab ρ) ℕ) := by
  apply KeepsPhys.get.bind
  intro s
  dsimp only
  split
  · refine KeepsPhys.after (KeepsPhys.after ?_)
    apply (kmallocUnlinkFull_phys z c page).bind
    intro _
    exact KeepsPhys.after (KeepsPhys.after (KeepsPhys.after (KeepsPhys.after (KeepsPhys.after (KeepsPhys.pure _)))))
  · exact KeepsPhys.panic _

theorem kmallocInitBlocks_phys (blocksize n p : ℕ) : KeepsPhys (kmallocInitBlocks blocksize n p : Prog (Slab ρ) ℕ) := by
  induction n generalizing p with
  | zero => exact KeepsPhys.pure p
  | succ n ih =>
    unfold kmallocInitBlocks
    refine KeepsPhys.after (KeepsPhys.after ?_)
    apply KeepsPhys.get.bind
    intro s
    exact ih _

/-- What the source of pages keeps is kept. -/
def Keeps {α : Type} (P : ρ → Prop) (x : Prog (Slab ρ) α) : Prop := ∀ s a s', P s.phys → x s = .ok a s' → P s'.phys

theorem KeepsPhys.keeps {α : Type} {x : Prog (Slab ρ) α} (h : KeepsPhys x) (P : ρ → Prop) : Keeps P x := by
  intro s a s' hP hrun
  rw [h s a s' hrun]
  exact hP

theorem Keeps.bind {α β : Type} {P : ρ → Prop} {x : Prog (Slab ρ) α} {f : α → Prog (Slab ρ) β} (hx : Keeps P x)
    (hf : ∀ a, Keeps P (f a)) : Keeps P (x >>= f) := by
  intro s b s' hP hrun
  obtain ⟨a, s₁, h₁, h₂⟩ := Prog.bind_ok.mp hrun
  exact hf a s₁ b s' (hx s a s₁ hP h₁) h₂

section Source
variable {pageAllocPage : ℕ → Prog (Slab ρ) ℕ} {P : ρ → Prop} {flags : ℕ} (hsource : Keeps P (pageAllocPage flags))
include hsource

theorem kmallocNewPage_keeps (z : Zone) (c : ℕ) : Keeps P (kmallocNewPage pageAllocPage z c flags) := by
  apply hsource.bind
  intro page
  split
  · exact (KeepsPhys.panic _).keeps P
  · apply KeepsPhys.keeps
    refine KeepsPhys.after (KeepsPhys.after (KeepsPhys.after ?_))
    apply KeepsPhys.get.bind
    intro s
    apply (kmallocInitBlocks_phys _ _ _).bind
    intro last
    exact KeepsPhys.after (KeepsPhys.after (KeepsPhys.after (KeepsPhys.after (KeepsPhys.after (KeepsPhys.after
      (KeepsPhys.modify fun _ => rfl))))))

theorem kmallocTries_keeps (z : Zone) (c size tries : ℕ) :
    Keeps P (kmallocTries pageAllocPage z c size flags tries) := by
  induction tries with
  | zero => exact (KeepsPhys.panic _).keeps P
  | succ tries ih =>
    apply (KeepsPhys.get.keeps P).bind
    intro s
    split
    · exact (kmallocFromPage_phys z c size flags _).keeps P
    · exact (kmallocNewPage_keeps hsource z c).bind fun _ => ih

theorem kmalloc_keeps (size : ℕ) : Keeps P (kmalloc pageAllocPage size flags) := by
  unfold kmalloc
  split
  · exact (KeepsPhys.panic _).keeps P
  · apply (KeepsPhys.get.keeps P).bind
    intro s
    split
    · exact (KeepsPhys.panic _).keeps P
    · exact kmallocTries_keeps hsource _ _ _ _

end Source

end Kmalloc

/-! ## Both over one state -/

/-- A call of the page allocator, which `kmalloc`'s state contains. -/
def onPhys {α : Type} (x : Prog Phys α) : Prog (Slab Phys) α := Prog.zoom Slab.phys (fun phys s => { s with phys }) x

/-- The page `kmalloc` gets from `page_alloc_page`, as it sees it. -/
def slabPage (flags : ℕ) : Prog (Slab Phys) ℕ := onPhys do
  let pfn ← pageAllocPage flags
  pure (pfn2virt pfn)

theorem onPhys_ok {α : Type} {x : Prog Phys α} {s s' : Slab Phys} {a : α} (h : onPhys x s = .ok a s') :
    ∃ phys, x s.phys = .ok a phys ∧ s' = { s with phys } := Prog.zoom_ok.mp h

section Both
variable {a₀ : Arena} {s₀ : Phys} {released : List Block} {L : Lists}

theorem slab_fresh (h : a₀.Inv s₀ released L) :
    FreshBlocks (fun k => onPhys (pageAllocPages 0 k)) fun s used => OffLists a₀ s.phys used where
  fresh := by
    intro s s' used k f hk hg hrun
    obtain ⟨phys, hphys, rfl⟩ := onPhys_ok hrun
    exact (buddy_fresh h).fresh hk hg hphys

theorem slab_kmalloc_keeps (h : a₀.Inv s₀ released L) {size p : ℕ} {s s' : Slab Phys} {used : Set ℕ}
    (hg : OffLists a₀ s.phys used) (hrun : kmalloc slabPage size 0 s = .ok p s') : OffLists a₀ s'.phys used := by
  refine kmalloc_keeps (P := fun phys => OffLists a₀ phys used) ?_ size s p s' hg hrun
  intro t page t' ht hpage
  obtain ⟨phys, hphys, rfl⟩ := onPhys_ok hpage
  obtain ⟨f, u, hf, hu⟩ := Prog.bind_ok.mp hphys
  obtain ⟨-, rfl⟩ := Outcome.ok.inj hu
  obtain ⟨-, -, hgood⟩ := (buddy_fresh h).fresh (Nat.zero_le _) ht hf
  exact hgood.mono Set.subset_union_left

end Both

end Borgos.Mmu
