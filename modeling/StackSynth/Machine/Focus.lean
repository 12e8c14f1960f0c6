import StackSynth.Machine.Native

/-!
# Parts of the module state

The state of a whole bank of modules is one value, and each module works on its own part of it. A
`Focus` is the way from the whole to the part: it lets a function of the part act on the whole. The
words of a module are written once, against a focus, and work wherever the module is kept.

While the part is being changed, a blank stands in its place in the whole. So only one reference to
the part exists, and arrays inside it are written in place.
-/

namespace StackSynth

/-- A way to a part `τ` of a state `σ`. -/
structure Focus (σ τ : Type) where
  /-- Changes the part and gives something back. -/
  change : {α : Type} → (τ → α × τ) → σ → α × σ

namespace Focus

variable {σ τ υ α : Type}

/-- The part itself. -/
def get (f : Focus σ τ) (s : σ) : τ := (f.change (fun t => (t, t)) s).1

/-- Changes the part. -/
def modify (f : Focus σ τ) (g : τ → τ) (s : σ) : σ := (f.change (fun t => ((), g t)) s).2

/-- The whole as its own part. -/
def whole : Focus σ σ := ⟨fun g s => g s⟩

/-- The part of a part. -/
def comp (f : Focus σ τ) (g : Focus τ υ) : Focus σ υ := ⟨fun h s => f.change (g.change h) s⟩

/-- The part that `get` reads and `set` writes; `blank` stands for it while it is being changed. -/
def field (get : σ → τ) (set : τ → σ → σ) (blank : τ) : Focus σ τ where
  change g s :=
    let part := get s
    let rest := set blank s
    let (result, part) := g part
    (result, set part rest)

/-- The item of an array at `i`. Behind the end of the array there is a default item, and changes of
it are forgotten. -/
def item [Inhabited τ] (i : Nat) : Focus (Array τ) τ where
  change g items :=
    if h : i < items.size then
      let part := items[i]
      let rest := items.set i default
      let (result, part) := g part
      (result, rest.set i part (by simpa [rest] using h))
    else ((g default).1, items)

/-! ## Natives and tickers of a part -/

/-- A change of the part as an action. -/
def act (f : Focus σ τ) (g : τ → α × τ) : NativeM σ α := Native.onModules (f.change g)

/-- Reads from the part. -/
def read (f : Focus σ τ) (g : τ → α) : NativeM σ α := f.act fun t => (g t, t)

/-- Changes the part and gives nothing back. -/
def update (f : Focus σ τ) (g : τ → τ) : NativeM σ Unit := f.act fun t => ((), g t)

/-- A change of the part in every frame; it is told whether the transport runs. -/
def ticker (f : Focus σ τ) (g : Bool → τ → τ) : Ticker σ
  | ⟨left, right, playing, modules⟩ => ⟨left, right, playing, f.modify (g playing) modules⟩

end Focus

end StackSynth
