import TensorIR.Registry
import TensorIR.Relay.InContext

/-!
# The operators of the dialect

Every operator with its fusion pattern and its shape rule. A constant has no rule: its declared type
is all there is to know about it.
-/

namespace TensorIR.Relay

/-- The name in front of every operator of the dialect. -/
def dialectName : String := "relay"

/-- An operator of the dialect. -/
def operator (base : String) (pattern : Pattern) (rule : ShapeRule) : Operator where
  name := dialectName ++ "." ++ base
  pattern
  rule := some rule

def operators : List Operator :=
  [ operator "nn.relu" .elementwise InContext.unary,
    operator "negative" .elementwise InContext.unary,
    operator "exp" .elementwise InContext.unary,
    operator "sqrt" .elementwise InContext.unary,
    operator "sigmoid" .elementwise InContext.unary,
    operator "tanh" .elementwise InContext.unary,
    operator "add" .broadcast InContext.binary,
    operator "subtract" .broadcast InContext.binary,
    operator "multiply" .broadcast InContext.binary,
    operator "divide" .broadcast InContext.binary,
    operator "maximum" .broadcast InContext.binary,
    operator "minimum" .broadcast InContext.binary,
    operator "sum" .reduction InContext.reduction,
    operator "mean" .reduction InContext.reduction,
    operator "max" .reduction InContext.reduction,
    operator "nn.max_pool2d" .outputFusable InContext.pool2d,
    operator "nn.avg_pool2d" .outputFusable InContext.pool2d,
    operator "nn.global_avg_pool2d" .outputFusable InContext.globalPool2d,
    operator "reshape" .injective InContext.reshape,
    operator "transpose" .injective InContext.transpose,
    operator "expand_dims" .injective InContext.expand,
    operator "squeeze" .injective InContext.squeeze,
    operator "concatenate" .injective InContext.concatenate,
    operator "nn.batch_flatten" .injective InContext.batchFlatten,
    operator "nn.bias_add" .broadcast InContext.biasAdd,
    operator "nn.softmax" .outputFusable InContext.softmax,
    operator "nn.dense" .outputFusable InContext.dense,
    operator "nn.batch_matmul" .outputFusable InContext.batchMatmul,
    operator "nn.conv2d" .outputFusable InContext.conv2d,
    operator "cast" .elementwise InContext.cast,
    { name := "relay.constant" } ]

/-- The registry of the dialect. -/
def registry : Registry :=
  Registry.ofList operators

end TensorIR.Relay
