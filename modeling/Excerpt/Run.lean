import Excerpt.Log
/-!
# Runs

A run is a computation with what it leaves behind: the paths of the sources it asked for, its log
and its result. The steps of a run follow one another until one of them fails, and a failed step
keeps what the steps before it left behind.
-/
namespace Excerpt

/-- A computation with what it leaves behind. -/
structure Run (α : Type) where
  loads : List Text
  log : List LogEntry
  result : Except Error α

namespace Run

variable {α β γ : Type}

def ofExcept (result : Except Error α) : Run α := ⟨[], [], result⟩

def note (entry : LogEntry) : Run Unit := ⟨[], [entry], .ok ()⟩

def request (path : Text) : Run Unit := ⟨[path], [], .ok ()⟩

def andThen (run : Run α) (next : α → Run β) : Run β :=
  match run.result with
  | .ok value =>
    ⟨run.loads ++ (next value).loads, run.log ++ (next value).log, (next value).result⟩
  | .error e => ⟨run.loads, run.log, .error e⟩

instance : Monad Run where
  pure value := ofExcept (.ok value)
  bind := andThen

@[simp] theorem pure_eq (value : α) : (pure value : Run α) = ⟨[], [], .ok value⟩ := rfl

@[simp] theorem bind_ok (loads : List Text) (log : List LogEntry) (value : α)
    (next : α → Run β) :
    (⟨loads, log, .ok value⟩ : Run α) >>= next =
      ⟨loads ++ (next value).loads, log ++ (next value).log, (next value).result⟩ := rfl

@[simp] theorem bind_error (loads : List Text) (log : List LogEntry) (e : Error)
    (next : α → Run β) :
    (⟨loads, log, .error e⟩ : Run α) >>= next = ⟨loads, log, .error e⟩ := rfl

theorem bind_bind (run : Run α) (f : α → Run β) (g : β → Run γ) :
    run >>= f >>= g = run >>= fun value => f value >>= g := by
  obtain ⟨loads, log, result⟩ := run
  cases result with
  | error e => rfl
  | ok value =>
    cases h : f value with
    | mk loads' log' result' => cases result' <;> simp [h]

end Run

end Excerpt
