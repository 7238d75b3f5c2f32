import ShadingMachine.Program.GraphicsVariable
import ShadingMachine.Value.Variable

/-! The values of the graphics variables. -/
namespace ShadingMachine

structure GraphicsState where
  values : Vector Variable 25

namespace GraphicsState

def ofFn (f : GraphicsVariable → Variable) : GraphicsState :=
  ⟨⟨(GraphicsVariable.all.map f).toArray, by simp⟩⟩

/-- Initial elements for a grid of `n` points. -/
def fresh (n : Nat) : GraphicsState :=
  ofFn fun x => (Variable.fresh x.name x.type x.detail).sizeTo n

def get (g : GraphicsState) (x : GraphicsVariable) : Variable :=
  have := x.index_lt
  g.values[x.index]

def set (g : GraphicsState) (x : GraphicsVariable) (v : Variable) : GraphicsState :=
  ⟨g.values.set x.index v x.index_lt⟩

theorem get_set (g : GraphicsState) (x y : GraphicsVariable) (v : Variable) :
    (g.set x v).get y = if x = y then v else g.get y := by
  have := x.index_lt
  have := y.index_lt
  simp [get, set, Vector.getElem_set]

@[simp] theorem get_ofFn (f : GraphicsVariable → Variable) (x : GraphicsVariable) :
    (ofFn f).get x = f x := by
  cases x <;> rfl

def modify (g : GraphicsState) (x : GraphicsVariable) (f : Value → Value) : GraphicsState :=
  g.set x ((g.get x).mapValue f)

end GraphicsState

end ShadingMachine
