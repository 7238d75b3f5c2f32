import ShadingMachine.Program.Opcode

/-! The mnemonics. In a family the letters of the operand types make the names: `addpv` adds a
vector to a point. -/
namespace ShadingMachine.Mnemonic

abbrev Entry := String × Operation

/-- An operation whose operands are all on the stack. -/
def plain (name : String) (code : Opcode) : Entry := (name, ⟨code, []⟩)

def tripleTypes : List ValueType := [.point, .vector, .normal]

def letterOf (t : ValueType) : String := t.letter.toString

def triplePairs : List (String × ValueType) :=
  tripleTypes.flatMap fun a => tripleTypes.map fun b => (letterOf a ++ letterOf b, a)

def data : List Entry := [
  plain "nop" .nop,
  plain "dup" .dup,
  plain "drop" .drop,
  plain "debug_break" .debugBreak,
  ("pushif", ⟨.pushFloat, [.float]⟩),
  ("pushis", ⟨.pushString, [.string]⟩),
  ("puship", ⟨.pushPoint, [.float, .float, .float]⟩),
  ("pushv", ⟨.pushVariable, [.variable]⟩),
  ("ipushv", ⟨.pushElement, [.variable]⟩),
  ("pop", ⟨.popVariable, [.variable]⟩),
  ("ipop", ⟨.popElement, [.variable]⟩)]

def merges : List Entry := ValueType.all.map fun t => plain ("merge" ++ letterOf t) (.merge t)

def builders : List Entry :=
  (tripleTypes.map fun t => plain ("sett" ++ letterOf t) (.buildTriple t)) ++
  [plain "settc" .buildColor, plain "settm" .buildMatrix] ++
  ([.color, .point, .vector, .normal, .matrix].map fun t =>
    plain ("setf" ++ letterOf t) (.ofFloat t)) ++
  (tripleTypes.map fun t => plain ("set" ++ letterOf t ++ "c") .tripleToColor) ++
  (tripleTypes.map fun t => plain ("setc" ++ letterOf t) (.colorToTriple t))

def tripleShapes : List (String × Shape) := triplePairs.map fun p => (p.1, .triples p.2)

def arithmeticShapes : List (String × Shape) :=
  [("ff", .floats)] ++ tripleShapes ++ [("cc", .colors)] ++
  (tripleTypes.map fun t => ("f" ++ letterOf t, Shape.floatTriple t)) ++
  (tripleTypes.map fun t => (letterOf t ++ "f", Shape.tripleFloat t)) ++
  [("fc", .floatColor), ("cf", .colorFloat)]

def arithmetic : List Entry :=
  [("add", .add), ("sub", .subtract), ("mul", .multiply), ("div", .divide)].flatMap
    (fun o => arithmeticShapes.map fun s => plain (o.1 ++ s.1) (.arithmetic o.2 s.2)) ++
  [plain "mulmm" (.arithmetic .multiply .matrices), plain "divmm" (.arithmetic .divide .matrices)]

def products : List Entry :=
  (triplePairs.map fun p => plain ("dot" ++ p.1) .dot) ++
  (triplePairs.map fun p => plain ("crs" ++ p.1) (.cross p.2))

def negations : List Entry :=
  [.float, .point, .vector, .normal, .color, .matrix].map fun t =>
    plain ("neg" ++ letterOf t) (.negate t)

def equalityShapes : List (String × Shape) :=
  tripleShapes ++ [("cc", .colors), ("ss", .strings), ("mm", .matrices)]

def comparisons : List Entry :=
  ([("ls", .less), ("gt", .greater), ("ge", .greaterEqual), ("le", .lessEqual), ("eq", .equal),
    ("ne", .notEqual)].map fun o => plain (o.1 ++ "ff") (.compare o.2 .floats)) ++
  ([("eq", .equal), ("ne", .notEqual)].flatMap fun o =>
    equalityShapes.map fun s => plain (o.1 ++ s.1) (.compare o.2 s.2)) ++
  [plain "land" .and, plain "lor" .or, plain "lnot" .not]

def mathematics : List Entry :=
  [("radians", .radians), ("degrees", .degrees), ("sin", .sin), ("asin", .asin), ("cos", .cos),
    ("acos", .acos), ("tan", .tan), ("atan", .atan), ("atan2", .atan2), ("sinh", .sinh),
    ("cosh", .cosh), ("tanh", .tanh), ("exp", .exp), ("sqrt", .sqrt),
    ("inversesqrt", .inverseSqrt), ("log", .log), ("logb", .logBase), ("abs", .abs),
    ("sign", .sign), ("floor", .floor), ("ceil", .ceil), ("round", .round), ("pow", .pow),
    ("mod", .mod), ("min", .min), ("max", .max), ("step", .step), ("clamp", .clamp),
    ("smoothstep", .smoothStep), ("mix", .mix), ("pmin", .pointMin), ("pmax", .pointMax),
    ("cmin", .colorMin), ("cmax", .colorMax), ("pclamp", .pointClamp), ("cclamp", .colorClamp),
    ("pmix", .pointMix), ("cmix", .colorMix), ("fspline", .floatSpline),
    ("cspline", .colorSpline), ("pspline", .pointSpline)].map fun e => plain e.1 (.math e.2)

def geometry : List Entry :=
  [("xcomp", .xComponent), ("ycomp", .yComponent), ("zcomp", .zComponent),
    ("setxcomp", .setXComponent), ("setycomp", .setYComponent), ("setzcomp", .setZComponent),
    ("comp", .component), ("setcomp", .setComponent), ("length", .length),
    ("distance", .distance), ("normalize", .normalize), ("faceforward", .faceForward),
    ("faceforward2", .faceForwardTo), ("reflect", .reflect), ("refract", .refract),
    ("ptlined", .segmentDistance), ("mcomp", .matrixEntry), ("setmcomp", .setMatrixEntry),
    ("determinant", .determinant), ("transformm", .transformPoint),
    ("vtransformm", .transformVector), ("ntransformm", .transformNormal),
    ("translate", .translate), ("scale", .scale), ("rotate", .rotate)].map
    fun e => plain e.1 (.geometry e.2)

def strings : List Entry :=
  [("concat", .concat), ("format", .format), ("printf", .printf), ("match", .matchPattern)].map
    fun e => plain e.1 (.string e.2)

def transforms : List Entry :=
  [("transform", .point), ("vtransform", .vector), ("ntransform", .normal)].flatMap
    (fun e => [plain e.1 (.service (.transform e.2 false)),
      plain (e.1 ++ "s") (.service (.transform e.2 true))]) ++
  [plain "ctransform" (.service (.transformColor false)),
    plain "ctransforms" (.service (.transformColor true))]

def derivatives : List Entry :=
  [.float, .point, .color].flatMap fun t =>
    [plain (letterOf t ++ "Du") (.service (.alongU t)),
      plain (letterOf t ++ "Dv") (.service (.alongV t)),
      plain (letterOf t ++ "Deriv") (.service (.derivative t))]

def noises : List Entry :=
  [.float, .color, .point].flatMap fun t =>
    plain (letterOf t ++ "random") (.service (.random t)) ::
    [1, 2, 3, 4].flatMap fun n =>
      [plain (letterOf t ++ s!"noise{n}") (.service (.noise t n)),
        plain (letterOf t ++ s!"cellnoise{n}") (.service (.cellNoise t n))]

def textures : List Entry :=
  [.float, .color].flatMap fun t =>
    [plain (letterOf t ++ "texture1") (.service (.texture t false)),
      plain (letterOf t ++ "texture2") (.service (.texture t true)),
      plain (letterOf t ++ "environment2") (.service (.surroundings t))]

def services : List Entry :=
  ([("depth", .depth), ("calculatenormal", .calculateNormal), ("area", .area),
    ("ambient", .ambient), ("diffuse", .diffuse), ("specular", .specular), ("phong", .phong),
    ("shadow", .shadow), ("trace", .trace)].map fun e => plain e.1 (.service e.2)) ++
  [("attribute", ⟨.service .attribute, [.variable]⟩), ("option", ⟨.service .option, [.variable]⟩)]

def illuminations : List Entry :=
  [("init_illuminance", .start), ("init_illuminance2", .startCategory),
    ("advance_illuminance", .advance), ("illuminance", .illuminance),
    ("illuminance2", .illuminanceCategory), ("illuminate", .illuminate),
    ("illuminate2", .illuminateAll), ("solar", .solar), ("solar2", .solarAll)].map
    fun e => plain e.1 (.illumination e.2)

def flows : List Entry :=
  ([("RS_PUSH", .enterScope), ("RS_POP", .leaveScope), ("RS_GET", .selectCurrent),
    ("RS_INVERSE", .invertScope), ("S_CLEAR", .clearCurrent), ("S_GET", .setCurrent)].map
    fun e => plain e.1 (.flow e.2)) ++
  ([("S_JZ", .jumpNoCurrent), ("S_JNZ", .jumpAllCurrent), ("RS_JZ", .jumpNoRunning),
    ("RS_JNZ", .jumpAllRunning), ("jz", .jumpFalse), ("jnz", .jumpTrue), ("jmp", .jump)].map
    fun e => (e.1, ⟨.flow e.2, [.label]⟩))

def table : List Entry :=
  data ++ merges ++ builders ++ arithmetic ++ products ++ negations ++ comparisons ++
  mathematics ++ geometry ++ strings ++ transforms ++ derivatives ++ noises ++ textures ++
  services ++ illuminations ++ flows

/-- The mnemonics in the order of the table. It decides only which of several names that are equally
near a misspelt one is suggested, where a hash table has an order of its own. -/
def names : List String := table.map Prod.fst

/-- The operation that a mnemonic names. -/
def operation? (name : String) : Option Operation := (table.find? (·.1 == name)).map Prod.snd

end ShadingMachine.Mnemonic
