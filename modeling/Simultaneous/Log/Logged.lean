/-!
Results that come with a log.
-/

namespace Simultaneous

/-- A value, and the records written on the way to it, in order. -/
structure Logged (ρ β : Type) where
  value : β
  log : List ρ

namespace Logged

variable {ρ β γ : Type}

instance : Monad (Logged ρ) where
  pure b := ⟨b, []⟩
  bind m f :=
    let n := f m.value
    ⟨n.value, m.log ++ n.log⟩

def tell (records : List ρ) : Logged ρ Unit := ⟨(), records⟩

@[simp] theorem value_pure (b : β) : (pure b : Logged ρ β).value = b := rfl

@[simp] theorem log_pure (b : β) : (pure b : Logged ρ β).log = [] := rfl

@[simp] theorem value_bind (m : Logged ρ β) (f : β → Logged ρ γ) :
    (m >>= f).value = (f m.value).value := rfl

@[simp] theorem log_bind (m : Logged ρ β) (f : β → Logged ρ γ) :
    (m >>= f).log = m.log ++ (f m.value).log := rfl

@[simp] theorem value_tell (records : List ρ) : (tell records).value = () := rfl

@[simp] theorem log_tell (records : List ρ) : (tell records).log = records := rfl

end Logged

end Simultaneous
